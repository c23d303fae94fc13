import DeliveryLedger.Fault
import DeliveryLedger.Json.Parser
import DeliveryLedger.Settings.Basic
/-!
Settings from variables.

A variable names a section, or a key inside it behind two underscores.  Letter case does not
count.  The value of a section or a list is JSON, any other is plain text.  A single key goes
before the same key inside the JSON text of its section.
-/

namespace DeliveryLedger.Settings

/-- What kind of value a key has. -/
inductive Shape where
  | plain
  /-- A list; if it may be missing, a value that is no JSON is kept as text. -/
  | list (optional : Bool)
  /-- A section with its keys; if it may be missing, a value that is no JSON is kept as text. -/
  | sections (optional : Bool) (keys : List (String × Shape))
deriving Repr, Inhabited

namespace Shape

/-- The shape of all settings. -/
def all : List (String × Shape) :=
  [("database", .sections false
      [("url", .plain), ("echo", .plain), ("auto_migrate", .plain)]),
   ("logging", .sections false
      [("level", .plain), ("format", .plain), ("date_format", .plain)]),
   ("ledger", .sections false
      [("handlers", .list false),
       ("republish_outstanding_on_startup", .plain),
       ("resubmit", .sections true
          [("cron", .plain), ("older_than_seconds", .plain), ("handler_ids", .list true)]),
       ("prune", .sections true
          [("cron", .plain), ("completed_older_than_seconds", .plain)])])]

/-- The shape of a key inside a section. -/
def key? (s : Shape) (key : String) : Option Shape :=
  match s with
  | .sections _ keys => member? key keys
  | _ => none

/-- The shape at the end of a path of keys. -/
def at? (s : Shape) : List String → Option Shape
  | [] => some s
  | key :: rest => (s.key? key).bind fun inner => inner.at? rest

/-- The value of a variable for a key of this shape. -/
def decode (s : Shape) (value : String) : Except Fault Json :=
  match s with
  | .plain => .ok (.str value)
  | .list optional | .sections optional _ =>
    match Json.parse? value with
    | some j => .ok j
    | none => if optional then .ok (.str value) else .error .unreadableSettings

end Shape

mutual

/-- The names of the variables for a key of this shape, where `name` is the key's own. -/
def Shape.names (name : String) : Shape → List String
  | .sections _ keys => name :: namesBehind (name ++ "__") keys
  | _ => [name]

/-- The names of the variables for a row of keys, each behind the same beginning. -/
def namesBehind (start : String) : List (String × Shape) → List String
  | [] => []
  | (key, shape) :: rest => shape.names (start ++ key) ++ namesBehind start rest

end

/-- The variables, by name; one without a value is there and empty. -/
abbrev Variables := List (String × Option String)

/-- The beginning of all names. -/
def namePrefix : String := "courier_"

/-- The names of all variables, in upper case. -/
def variableNames : List String := (namesBehind namePrefix Shape.all).map String.toUpper

/-- The variables with their names in lower case. -/
def foldNames (vars : Variables) : Variables :=
  collectMembers (vars.map fun v => (v.1.toLower, v.2))

/-- A value put at a path of keys.  A value on the way that is no object stays, and nothing is
put. -/
def setAt : List String → Json → List (String × Json) → List (String × Json)
  | [], _, members => members
  | [key], value, members => insertMember key value members
  | key :: rest, value, members =>
    match member? key members with
    | none => insertMember key (.obj (setAt rest value [])) members
    | some (.obj inner) => insertMember key (.obj (setAt rest value inner)) members
    | some _ => members

/-- The keys of a name, which two underscores separate. -/
def keysFrom (key : List Char) : List Char → List String
  | '_' :: '_' :: cs => String.ofList key.reverse :: keysFrom [] cs
  | c :: cs => keysFrom (c :: key) cs
  | [] => [String.ofList key.reverse]

/-- The value of a variable at a path of keys inside a section; an empty one is not decoded. -/
def valueAt (section_ : Shape) (keys : List String) (value : Option String) :
    Except Fault Json :=
  match value with
  | none => .ok .null
  | some value =>
    match section_.at? keys with
    | some shape => if value = "" then .ok (.str value) else shape.decode value
    | none => .ok (.str value)

/-- The members of a section from all variables that name a key inside it. -/
def explode (section_ : Shape) (name : String) (vars : Variables) :
    Except Fault (List (String × Json)) :=
  let start := (namePrefix ++ name ++ "__").toList
  vars.foldlM (fun members v =>
    if start.isPrefixOf v.1.toList then do
      let keys := keysFrom [] (v.1.toList.drop start.length)
      let value ← valueAt section_ keys v.2
      .ok (setAt keys value members)
    else .ok members) []

mutual

/-- Members changed by others: objects member by member, anything else as a whole. -/
def deepUpdate (members : List (String × Json)) :
    List (String × Json) → List (String × Json)
  | [] => members
  | (key, value) :: rest =>
    deepUpdate (insertMember key (updateValue (member? key members) value) members) rest

def updateValue (old : Option Json) : Json → Json
  | .obj new =>
    match old with
    | some (.obj members) => .obj (deepUpdate members new)
    | _ => .obj new
  | j => j

end

/-- The members with the names of known keys in lower case. -/
def foldKeys (section_ : Shape) (members : List (String × Json)) : List (String × Json) :=
  collectMembers (members.map fun m =>
    match section_.key? m.1.toLower with
    | some _ => (m.1.toLower, m.2)
    | none => m)

/-- The value of a section from the variables, if any variable concerns it. -/
def sectionValue (vars : Variables) (name : String) (section_ : Shape) :
    Except Fault (Option Json) := do
  match (member? (namePrefix ++ name) vars).join with
  | none =>
    match ← explode section_ name vars with
    | [] => .ok none
    | members => .ok (some (.obj (foldKeys section_ members)))
  | some value =>
    match ← section_.decode value with
    | .obj members =>
      let more ← explode section_ name vars
      .ok (some (.obj (foldKeys section_ (deepUpdate members more))))
    | .null => .ok none
    | j => .ok (some j)

/-- The settings that variables give, section by section. -/
def ofVariables (vars : Variables) : Except Fault (List (String × Json)) := do
  let vars := foldNames vars
  let found ← Shape.all.mapM fun s => do
    let value ← sectionValue vars s.1 s.2
    .ok (value.map fun j => (s.1, j))
  .ok (found.filterMap id)

end DeliveryLedger.Settings
