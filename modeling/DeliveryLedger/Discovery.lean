import DeliveryLedger.Module.Reference
import DeliveryLedger.Publication.Handler
import DeliveryLedger.Log
/-!
Discovery: handlers found through entry points and through references.

A target yields handlers if it is a handler or a descriptor, a handler class that needs no
arguments, a row of handlers, or a function that returns a handler or a row of them.  An
entry point that yields none is passed over with a warning; the first such reference ends the
discovery.
-/

namespace DeliveryLedger

/-- A named target that is on offer, or the fault that loading it ends with. -/
structure EntryPoint where
  name : String
  target : Except Fault Target

namespace Discovery

/-- The base class of all handlers, taken as a handler class. -/
def baseClass : HandlerClass :=
  { key := "", name := "OccurrenceHandler", moduleName := Catalogue.baseModule,
    localName := "OccurrenceHandler", explicitId := none, occurrenceType := none,
    asynchronous := false, required := [], isDescriptor := false, body := none }

/-- Names in quotes, the last one behind `and`. -/
def enumerate : List String → String
  | [] => ""
  | [a] => "'" ++ a ++ "'"
  | [a, b] => "'" ++ a ++ "' and '" ++ b ++ "'"
  | names =>
    String.join (names.dropLast.map fun a => "'" ++ a ++ "', ") ++ "and '" ++
      names.getLast?.getD "" ++ "'"

/-- The fault of an instance made without the arguments that it needs. -/
def missingArguments (c : HandlerClass) : Fault :=
  .foreign .type (c.localName ++ ".__init__() missing " ++
    Decimal.natText c.required.length ++ " required positional argument" ++
    (if c.required.length = 1 then "" else "s") ++ ": " ++ enumerate c.required)

/-- An instance of a class, made without arguments. -/
def make (c : HandlerClass) : Except Fault Registrable :=
  if c.required = [] then
    match c.raises with
    | some fault => .error fault
    | none => .ok (.instanceOf c)
  else .error (missingArguments c)

/-- The handler class that declarations call `key`. -/
def classOf (classes : List HandlerClass) (key : String) : Except Fault HandlerClass :=
  match classes.find? (·.key = key) with
  | some c => .ok c
  | none => .error (.foreign .key key)

/-- The name of an object's kind. -/
def kindName : Object → String
  | .value .null => "NoneType"
  | .value (.bool _) => "bool"
  | .value (.int _) => "int"
  | .value (.float _) => "float"
  | .value (.str _) => "str"
  | .value (.arr _) => "list"
  | .value (.obj _) => "dict"
  | .moduleRef _ => "module"
  | .occurrenceClass _ => "ModelMetaclass"
  | .handlerBase => "_OccurrenceHandlerMeta"
  | .handlerClass _ => "_OccurrenceHandlerMeta"
  | .handler _ => "OccurrenceHandler"
  | .descriptor _ => "HandlerDescriptor"
  | .list _ => "list"
  | .tuple _ => "tuple"
  | .stream .. | .breaking .. => "generator"
  | .plainClass .. => "type"
  | .factory _ => "function"
  | .failing _ => "function"

/-- A class by its module and name. -/
def classText (moduleName localName : String) : String :=
  "<class '" ++ moduleName ++ "." ++ localName ++ "'>"

/-- An instance as it stands in a message: its arguments are not there. -/
def instanceText (c : HandlerClass) : String :=
  c.localName ++ "(" ++ String.intercalate ", " (c.required.map (· ++ "=None")) ++ ")"

mutual

/-- An object as it stands in a message. -/
def objectText (cat : Catalogue) (classes : List HandlerClass) : Object → String
  | .value data => Text.literal data
  | .moduleRef name => "<module '" ++ name ++ "'>"
  | .occurrenceClass id =>
    match cat.classes[id]? with
    | some c => classText c.moduleName c.localName
    | none => ""
  | .handlerBase => classText baseClass.moduleName baseClass.localName
  | .handlerClass key =>
    match classes.find? (·.key = key) with
    | some c => classText c.moduleName c.localName
    | none => ""
  | .handler key =>
    match classes.find? (·.key = key) with
    | some c => instanceText c
    | none => ""
  | .descriptor _ => "<descriptor>"
  | .list items => "[" ++ String.intercalate ", " (objectTexts cat classes items) ++ "]"
  | .tuple items =>
    match objectTexts cat classes items with
    | [item] => "(" ++ item ++ ",)"
    | items => "(" ++ String.intercalate ", " items ++ ")"
  | .stream .. | .breaking .. => "<generator object>"
  | .plainClass _ name => classText "app" name
  | .factory _ => "<function>"
  | .failing _ => "<function>"

def objectTexts (cat : Catalogue) (classes : List HandlerClass) : List Object → List String
  | [] => []
  | o :: os => objectText cat classes o :: objectTexts cat classes os

end

/-- The handler that an object is, if it is one. -/
def handler? (classes : List HandlerClass) : Object → Except Fault (Option Registrable)
  | .handler key => do .ok (some (Registrable.ofClass (← classOf classes key)))
  | .descriptor key => do
    .ok (some (.descriptor (← HandlerDescriptor.ofClass (← classOf classes key))))
  | _ => .ok none

/-- What taking the items of a stream comes to: they can be taken once. -/
def taken (space : ModuleSpace) (id : Nat) (items : Except Fault (List Object)) :
    ModuleSpace.Attempt (List Object) :=
  if space.spent.contains id then (.ok [], space)
  else (items, { space with spent := id :: space.spent })

/-- The members of an object that has any: items, keys, or the characters of a text. -/
def members (space : ModuleSpace) : Object → ModuleSpace.Attempt (List Object)
  | .list items => (.ok items, space)
  | .tuple items => (.ok items, space)
  | .stream id items => taken space id (.ok items)
  | .breaking id _ fault => taken space id (.error fault)
  | .value (.arr items) => (.ok (items.map .value), space)
  | .value (.obj members) => (.ok (members.map fun m => .value (.str m.1)), space)
  | .value (.str s) => (.ok (s.toList.map fun c => .value (.str (String.ofList [c]))), space)
  | object => (.error (.foreign .type ("'" ++ kindName object ++ "' object is not iterable")), space)

/-- Each of a row of objects as a handler. -/
def allHandlers (cat : Catalogue) (classes : List HandlerClass) (name : String) :
    List Object → Except Fault (List Registrable)
  | [] => .ok []
  | o :: os => do
    match ← handler? classes o with
    | some h => .ok (h :: (← allHandlers cat classes name os))
    | none =>
      .error (.configuration (name ++ ": " ++ objectText cat classes o ++
        " is not an OccurrenceHandler"))

/-- The fault of an object without members, or whose members cannot be taken. -/
def noMembers (name : String) (object : Object) (fault : Fault) : Fault :=
  if fault.isTypeFault then
    .configuration (name ++ ": expected handlers, got " ++ kindName object)
  else fault

/-- The handlers that an object is, or holds. -/
def handlersIn (classes : List HandlerClass) (name : String) (space : ModuleSpace)
    (object : Object) : ModuleSpace.Attempt (List Registrable) :=
  match handler? classes object with
  | .error fault => (.error fault, space)
  | .ok (some h) => (.ok [h], space)
  | .ok none =>
    match members space object with
    | (.error fault, space) => (.error (noMembers name object fault), space)
    | (.ok items, space) => (allHandlers space.catalogue classes name items, space)

/-- The fault of a class of the wrong kind. -/
def notAHandlerClass (name className : String) : Fault :=
  .configuration (name ++ ": " ++ className ++ " is not an OccurrenceHandler")

/-- The name of an occurrence class, without the classes around it. -/
def occurrenceName (cat : Catalogue) (id : ClassId) : String :=
  Catalogue.simpleName ((cat.classes[id]?.map (·.localName)).getD "")

/-- The handlers that a target yields. -/
def materialize (classes : List HandlerClass) (name : String) (space : ModuleSpace)
    (target : Object) : ModuleSpace.Attempt (List Registrable) :=
  match target with
  | .handlerClass key => (do .ok [← make (← classOf classes key)], space)
  | .handlerBase => (.ok [.instanceOf baseClass], space)
  | .occurrenceClass id =>
    (.error (notAHandlerClass name (occurrenceName space.catalogue id)), space)
  | .plainClass _ className => (.error (notAHandlerClass name className), space)
  | .failing fault => (.error fault, space)
  | .factory returns =>
    match space.realize name returns with
    | .error fault => (.error fault, space)
    | .ok (object, space) => handlersIn classes name space object
  | object => handlersIn classes name space object

/-- What the fault of a missing attribute says of the object. -/
def described (classes : List HandlerClass) : Object → String
  | .moduleRef m => "module '" ++ m ++ "'"
  | .handlerBase => "type object 'OccurrenceHandler'"
  | .handlerClass key => "type object '" ++ ((classes.find? (·.key = key)).map (·.name)).getD "" ++ "'"
  | .plainClass _ className => "type object '" ++ className ++ "'"
  | .handler key => "'" ++ ((classes.find? (·.key = key)).map (·.name)).getD "" ++ "' object"
  | object => "'" ++ kindName object ++ "' object"

/-- The fault of an attribute that an object does not have; an occurrence class just names
the attribute. -/
def noAttribute (classes : List HandlerClass) (object : Object) (name : String) : Fault :=
  match object with
  | .occurrenceClass _ => .foreign .attribute name
  | object => .foreign .attribute (described classes object ++ " has no attribute '" ++ name ++ "'")

/-- The object at the end of a path. -/
def follow (classes : List HandlerClass) (space : ModuleSpace) (object : Object) :
    List String → Except Fault Object
  | [] => .ok object
  | name :: rest =>
    match space.attribute? object name with
    | none => .error (noAttribute classes object name)
    | some next => follow classes space next rest

/-- The fault of a text that spells no reference. -/
def unreadable : Fault := .foreign .attribute "'NoneType' object has no attribute 'group'"

/-- The object that a reference leads to; its module is imported on the way. -/
def load (classes : List HandlerClass) (space : ModuleSpace) (text : String) :
    ModuleSpace.Attempt Object :=
  match Reference.parse? text with
  | none => (.error unreadable, space)
  | some r =>
    match space.importModule r.moduleName with
    | (.error fault, space) => (.error fault, space)
    | (.ok (), space) => (follow classes space (.moduleRef r.moduleName) r.path, space)

/-- The handlers of an entry point. -/
def ofEntryPoint (classes : List HandlerClass) (space : ModuleSpace) (e : EntryPoint) :
    ModuleSpace.Attempt (List Registrable) :=
  match e.target with
  | .error fault => (.error fault, space)
  | .ok target =>
    match space.realize e.name target with
    | .error fault => (.error fault, space)
    | .ok (object, space) => materialize classes e.name space object

/-- The handlers of a reference. -/
def ofReference (classes : List HandlerClass) (space : ModuleSpace) (text : String) :
    ModuleSpace.Attempt (List Registrable) :=
  match load classes space text with
  | (.error fault, space) => (.error fault, space)
  | (.ok object, space) => materialize classes text space object

/-- The fault of a reference that yields no handlers: always a wrong setup. -/
def cannotLoad (text : String) (fault : Fault) : Fault :=
  if fault.isConfigurationFault then fault
  else .configuration ("Cannot load handlers from '" ++ text ++ "': " ++ fault.message)

/-- The handlers of all entry points that yield some, the lines about each, and the modules
after it. -/
def ofEntryPoints (classes : List HandlerClass) (space : ModuleSpace) :
    List EntryPoint → List Registrable × List LogLine × ModuleSpace
  | [] => ([], [], space)
  | e :: es =>
    match ofEntryPoint classes space e with
    | (.ok found, space) =>
      let (handlers, log, space) := ofEntryPoints classes space es
      let line : LogLine := ⟨.debug, "Discovered " ++ Decimal.natText found.length ++
        " handlers from entry point " ++ e.name⟩
      (found ++ handlers, line :: log, space)
    | (.error fault, space) =>
      let (handlers, log, space) := ofEntryPoints classes space es
      let line : LogLine := ⟨.warning, "Failed to load handlers from entry point '" ++ e.name ++
        "': " ++ fault.message⟩
      (handlers, line :: log, space)

/-- The handlers of all references, or the fault of the first that yields none. -/
def ofReferences (classes : List HandlerClass) (space : ModuleSpace) :
    List String → ModuleSpace.Attempt (List Registrable)
  | [] => (.ok [], space)
  | text :: texts =>
    match ofReference classes space text with
    | (.error fault, space) => (.error (cannotLoad text fault), space)
    | (.ok found, space) =>
      match ofReferences classes space texts with
      | (.error fault, space) => (.error fault, space)
      | (.ok handlers, space) => (.ok (found ++ handlers), space)

/-- What a discovery comes to. -/
structure Result where
  outcome : Except Fault (List Registrable)
  log : List LogLine
  space : ModuleSpace

/-- The handlers of the entry points, followed by those of the references. -/
def discover (classes : List HandlerClass) (space : ModuleSpace)
    (entryPoints : List EntryPoint) (references : List String) : Result :=
  let (offered, log, space) := ofEntryPoints classes space entryPoints
  match ofReferences classes space references with
  | (.error fault, space) => ⟨.error fault, log, space⟩
  | (.ok named, space) => ⟨.ok (offered ++ named), log, space⟩

end Discovery

end DeliveryLedger
