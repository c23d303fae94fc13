import DeliveryLedger.Occurrence.Basic
/-!
Handlers: their declarations, and what the ledger knows of each.

A handler class may derive from another one.  Identity, mode and occurrence type are taken
over from the base where the class itself does not give them; an empty identity is replaced
by the module and name of the class.
-/

namespace DeliveryLedger

/-- The declaration of a handler class, or of a ready descriptor. -/
structure HandlerDeclaration where
  key : String
  /-- The class of occurrences that the class itself names. -/
  occurrence : Option String
  /-- The identity that the class itself gives, which may be none at all. -/
  id : Option (Option String)
  asynchronous : Option Bool
  name : Option String
  moduleName : Option String
  localName : Option String
  base : Option String
  /-- The arguments that an instance cannot be made without. -/
  required : List String
  isDescriptor : Bool
  /-- The class does not say how to handle an occurrence. -/
  unimplemented : Bool
  /-- The fault that making an instance ends with. -/
  raises : Option Fault := none
deriving Repr, Inhabited

/-- A handler class with everything that it takes over from its bases. -/
structure HandlerClass where
  key : String
  name : String
  moduleName : String
  localName : String
  explicitId : Option String
  occurrenceType : Option ClassId
  asynchronous : Bool
  required : List String
  isDescriptor : Bool
  /-- The handler whose body runs, if any. -/
  body : Option String
  /-- The fault that making an instance ends with. -/
  raises : Option Fault := none
deriving Repr, Inhabited

namespace HandlerClass

/-- The identity of a handler: the one given, or else module and name. -/
def handlerId (c : HandlerClass) : String :=
  let fallback := c.moduleName ++ "." ++ c.localName
  match c.explicitId with
  | some id => if id = "" then fallback else id
  | none => fallback

/-- The class of a declaration, given the classes declared before it. -/
def ofDeclaration (cat : Catalogue) (known : List HandlerClass) (d : HandlerDeclaration) :
    HandlerClass :=
  let base := d.base.bind fun key => known.find? (·.key = key)
  let name := d.name.getD d.key
  { key := d.key, name := name, moduleName := d.moduleName.getD "app",
    localName := d.localName.getD name,
    explicitId := match d.id with
      | some id => id
      | none => base.bind (·.explicitId)
    occurrenceType := match d.occurrence.bind cat.byKey? with
      | some id => some id
      | none => base.bind (·.occurrenceType)
    asynchronous := match d.asynchronous with
      | some mode => mode
      | none => (base.map (·.asynchronous)).getD false
    required := match base with
      | some b => b.required ++ d.required
      | none => d.required
    isDescriptor := d.isDescriptor
    body := if d.unimplemented then base.bind (·.body) else some d.key
    raises := match d.raises with
      | some fault => some fault
      | none => base.bind (·.raises) }

/-- The classes of a row of declarations. -/
def ofDeclarations (cat : Catalogue) (ds : List HandlerDeclaration) : List HandlerClass :=
  ds.foldl (fun known d => known ++ [ofDeclaration cat known d]) []

end HandlerClass

/-- A registered handler: its identity, what it handles, and how it is invoked. -/
structure HandlerDescriptor where
  id : String
  occurrenceType : ClassId
  asynchronous : Bool
  /-- The name of the handler's class. -/
  name : String
  /-- The handler whose body runs, if any. -/
  body : Option String
deriving DecidableEq, Repr, Inhabited

namespace HandlerDescriptor

/-- How an instance is invoked by itself, whether or not its class names an occurrence type. -/
def ofInstance (c : HandlerClass) : HandlerDescriptor :=
  { id := c.handlerId, occurrenceType := c.occurrenceType.getD 0,
    asynchronous := c.asynchronous, name := c.name, body := c.body }

/-- The descriptor of an instance; its class has to name an occurrence type. -/
def ofClass (c : HandlerClass) : Except Fault HandlerDescriptor :=
  match c.occurrenceType with
  | none =>
    .error (.configuration (c.name ++ " does not declare an occurrence type; " ++
      "subclass OccurrenceHandler[SomeOccurrence]"))
  | some type =>
    .ok { ofInstance c with occurrenceType := type }

/-- A descriptor declared as such: its identity is taken as it is given. -/
def ofReady (c : HandlerClass) : HandlerDescriptor :=
  { id := c.explicitId.getD "", occurrenceType := c.occurrenceType.getD 0,
    asynchronous := c.asynchronous, name := c.name, body := c.body }

end HandlerDescriptor

/-- What can be registered: an instance of a handler class, or a descriptor. -/
inductive Registrable where
  | instanceOf (c : HandlerClass)
  | descriptor (d : HandlerDescriptor)
deriving Repr, Inhabited

namespace Registrable

def descriptor? : Registrable → Except Fault HandlerDescriptor
  | .instanceOf c => HandlerDescriptor.ofClass c
  | .descriptor d => .ok d

/-- What a declared handler is registered as. -/
def ofClass (c : HandlerClass) : Registrable :=
  if c.isDescriptor then .descriptor (.ofReady c) else .instanceOf c

end Registrable

end DeliveryLedger
