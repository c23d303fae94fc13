import DeliveryLedger.Module.Target
import DeliveryLedger.Text.Split
/-!
Importable modules, and the search for the class that a type name stands for.

A module is executed when it is first imported, after the modules of all shorter prefixes of
its name: it may fail, or else it declares its classes and binds its attributes.  The search
looks into the registry first; then it imports the longest prefix of the type name that is a
module and follows the rest of the name through attributes.
-/

namespace DeliveryLedger

/-- An importable module. -/
structure ModuleSource where
  name : String
  types : List ClassDeclaration
  attributes : List (String × Target)
  /-- The fault that every attempt to import the module ends with. -/
  raises : Option Fault

structure ModuleSpace where
  catalogue : Catalogue
  sources : List ModuleSource
  /-- The modules that were imported. -/
  loaded : List String
  bindings : List ((Owner × String) × Object)
  /-- The streams whose items were taken. -/
  spent : List Nat
  /-- A number that no plain class and no stream has yet. -/
  fresh : Nat

namespace ModuleSpace

/-- The modules that are there from the beginning, each with its last name. -/
def builtinModules : List (String × String × String) :=
  [("courier", "domain", "courier.domain"),
   ("courier.domain", "shared", "courier.domain.shared"),
   ("courier.domain.shared", "occurrence", Catalogue.baseModule)]

def initial (sources : List ModuleSource) : ModuleSpace :=
  { catalogue := Catalogue.initial
    sources := sources
    loaded := "courier" :: builtinModules.map fun m => m.2.2
    bindings :=
      builtinModules.map (fun m => ((.moduleOf m.1, m.2.1), .moduleRef m.2.2)) ++
        [((.moduleOf Catalogue.baseModule, "Occurrence"), .occurrenceClass 0),
         ((.moduleOf Catalogue.baseModule, "OccurrenceHandler"), .handlerBase)]
    spent := []
    fresh := 0 }

/-- What a name is bound to in an owner; the latest binding counts. -/
def lookup? (space : ModuleSpace) (owner : Owner) (name : String) : Option Object :=
  (space.bindings.find? fun b => b.1 = (owner, name)).map (·.2)

def bind (space : ModuleSpace) (owner : Owner) (name : String) (object : Object) :
    ModuleSpace :=
  { space with bindings := ((owner, name), object) :: space.bindings }

/-- The owner that an object is, if names can be bound in it. -/
def ownerOf? : Object → Option Owner
  | .moduleRef name => some (.moduleOf name)
  | .occurrenceClass id => some (.classOf id)
  | .plainClass id _ => some (.plainOf id)
  | _ => none

/-- An attribute of an object; a class has the attributes of its ancestors too. -/
def attribute? (space : ModuleSpace) (object : Object) (name : String) : Option Object :=
  match object with
  | .moduleRef m => space.lookup? (.moduleOf m) name
  | .plainClass id _ => space.lookup? (.plainOf id) name
  | .occurrenceClass id =>
    (space.catalogue.lineage id).findSome? fun c => space.lookup? (.classOf c) name
  | _ => none

/-- The class bound at a dotted name inside an owner; outer classes that are missing are made
on the way. -/
def bindNested (space : ModuleSpace) (owner : Owner) : List String → Object → ModuleSpace
  | [], _ => space
  | [name], object => space.bind owner name object
  | name :: rest, object =>
    match (space.lookup? owner name).bind ownerOf? with
    | some inner => space.bindNested inner rest object
    | none =>
      let made : Owner := .plainOf space.fresh
      let space := { space.bind owner name (.plainClass space.fresh name) with
        fresh := space.fresh + 1 }
      space.bindNested made rest object

mutual

/-- The object of a declaration.  It fails if the declaration names no class. -/
def realize (space : ModuleSpace) (name : String) : Target → Except Fault (Object × ModuleSpace)
  | .value data => .ok (.value data, space)
  | .occurrence key =>
    match space.catalogue.byKey? key with
    | some id => .ok (.occurrenceClass id, space)
    | none => .error (.foreign .key key)
  | .handlerClass key => .ok (.handlerClass key, space)
  | .handler key => .ok (.handler key, space)
  | .descriptor key => .ok (.descriptor key, space)
  | .list items => do
    let (objects, space) ← realizeAll space name items
    .ok (.list objects, space)
  | .tuple items => do
    let (objects, space) ← realizeAll space name items
    .ok (.tuple objects, space)
  | .stream items => do
    let (objects, space) ← realizeAll space name items
    .ok (.stream space.fresh objects, { space with fresh := space.fresh + 1 })
  | .breaking items fault => do
    let (objects, space) ← realizeAll space name items
    .ok (.breaking space.fresh objects fault, { space with fresh := space.fresh + 1 })
  | .plainClass attributes => do
    let id := space.fresh
    let space ← bindAll { space with fresh := id + 1 } (.plainOf id) attributes
    .ok (.plainClass id name, space)
  | .factory returns => .ok (.factory returns, space)
  | .failing fault => .ok (.failing fault, space)

def realizeAll (space : ModuleSpace) (name : String) :
    List Target → Except Fault (List Object × ModuleSpace)
  | [] => .ok ([], space)
  | t :: ts => do
    let (object, space) ← realize space name t
    let (objects, space) ← realizeAll space name ts
    .ok (object :: objects, space)

def bindAll (space : ModuleSpace) (owner : Owner) :
    List (String × Target) → Except Fault ModuleSpace
  | [] => .ok space
  | (name, t) :: ts => do
    let (object, space) ← realize space name t
    bindAll (space.bind owner name object) owner ts

end

/-- A step that may fail; what it changed before it failed stays. -/
abbrev Attempt (α : Type) := Except Fault α × ModuleSpace

/-- The classes of a module, declared and bound in it. -/
def declareTypes (space : ModuleSpace) (moduleName : String) :
    List ClassDeclaration → Attempt Unit
  | [] => (.ok (), space)
  | d :: ds =>
    match space.catalogue.declare moduleName d with
    | .error fault => (.error fault, space)
    | .ok (id, catalogue) =>
      let path := Text.splitDots (d.localName.getD d.key)
      let space := { space with catalogue := catalogue }
      declareTypes (space.bindNested (.moduleOf moduleName) path (.occurrenceClass id))
        moduleName ds

/-- A module executed. -/
def execute (space : ModuleSpace) (source : ModuleSource) : Attempt Unit :=
  match source.raises with
  | some fault => (.error fault, space)
  | none =>
    match space.declareTypes source.name source.types with
    | (.error fault, space) => (.error fault, space)
    | (.ok (), space) =>
      match space.bindAll (.moduleOf source.name) source.attributes with
      | .error fault => (.error fault, space)
      | .ok space => (.ok (), space)

/-- The fault of a module that does not exist. -/
def noModule (name : String) : Fault :=
  .foreign .importing ("No module named " ++ Text.quoted name)

/-- The module whose name consists of `outer` and one more part, imported after `outer` was. -/
def importPart (space : ModuleSpace) (outer : List String) (part : String) : Attempt Unit :=
  let name := Text.joinDots (outer ++ [part])
  if space.loaded.contains name then (.ok (), space)
  else
    match space.sources.find? (·.name = name) with
    | none => (.error (noModule name), space)
    | some source =>
      match space.execute source with
      | (.error fault, space) => (.error fault, space)
      | (.ok (), space) =>
        let space := { space with loaded := name :: space.loaded }
        (.ok (), if outer = [] then space
          else space.bind (.moduleOf (Text.joinDots outer)) part (.moduleRef name))

/-- The modules of all prefixes of a name, the shortest first, behind the imported prefix
`outer`. -/
def importParts (space : ModuleSpace) (outer : List String) : List String → Attempt Unit
  | [] => (.ok (), space)
  | part :: rest =>
    match space.importPart outer part with
    | (.error fault, space) => (.error fault, space)
    | (.ok (), space) => space.importParts (outer ++ [part]) rest

/-- The module of a name, imported.  A leading point would make the name relative, and there
is nothing that it could be relative to. -/
def importModule (space : ModuleSpace) (name : String) : Attempt Unit :=
  if name = "" then (.error (.foreign .value "Empty module name"), space)
  else if name.toList.head? = some '.' then
    (.error (.foreign .type
      ("the 'package' argument is required to perform a relative import for " ++
        Text.quoted name)), space)
  else space.importParts [] (Text.splitDots name)

/-- The object at the end of a path of attributes. -/
def follow? (space : ModuleSpace) (object : Object) : List String → Option Object
  | [] => some object
  | name :: rest =>
    match space.attribute? object name with
    | none => none
    | some next => space.follow? next rest

/-- The occurrence class at the end of a path inside a module. -/
def classAt? (space : ModuleSpace) (moduleName : String) (path : List String) :
    Option ClassId :=
  match space.follow? (.moduleRef moduleName) path with
  | some (.occurrenceClass id) => some id
  | _ => none

/-- How a search ended: the class found, if any, or a fault that an import raised and that
does not just say that a module is missing; how many imports were tried; and the modules as
they are now. -/
structure Search where
  outcome : Except Fault (Option ClassId)
  attempts : Nat
  space : ModuleSpace

/-- The search through the modules that end after `n`, `n - 1`, … parts of a name. -/
def searchModules (space : ModuleSpace) (parts : List String) : Nat → Search
  | 0 => ⟨.ok none, 0, space⟩
  | n + 1 =>
    let moduleName := Text.joinDots (parts.take (n + 1))
    if moduleName = "" then ⟨.ok none, 0, space⟩
    else
      match space.importModule moduleName with
      | (.ok (), space) => ⟨.ok (space.classAt? moduleName (parts.drop (n + 1))), 1, space⟩
      | (.error fault, space) =>
        if fault.isImportFault then
          let rest := searchModules space parts n
          { rest with attempts := rest.attempts + 1 }
        else ⟨.error fault, 1, space⟩

/-- The class that a type name stands for. -/
def resolveType (space : ModuleSpace) (name : String) : Search :=
  match space.catalogue.registered? name with
  | some id => ⟨.ok (some id), 0, space⟩
  | none =>
    let parts := Text.splitDots name
    space.searchModules parts (parts.length - 1)

end ModuleSpace

end DeliveryLedger
