import DeliveryLedger.Occurrence.FieldType
import DeliveryLedger.Occurrence.Lineage
import DeliveryLedger.Fault
/-!
The occurrence classes of a node and the names under which they are registered.

A class is registered under its type name when it is declared: the name pinned to it, or else
its module and its own name.  A later class of the same type name takes its place in the
registry.  The base class is always there and is not registered.

Besides its fields a class has rules for the data that it reads: its conversions, and checks of
its own, which find mistakes or raise faults of any kind.
-/

namespace DeliveryLedger

/-- A class, by the order of declaration; zero is the base class of all occurrences. -/
abbrev ClassId := Nat

structure Field where
  name : String
  type : FieldType
  default : Option Value
deriving Repr

/-- What a class has to say about the values that it reads, besides their types. -/
structure ClassRules where
  /-- The types of the fields are strict ones unless the declaration of the class says otherwise. -/
  conversions : Conversions := .strict
  /-- What the checks of the class make of those values that could be read. -/
  verdict : List (String × Value) → Except Rejection Unit := fun _ => .ok ()

structure OccurrenceClass where
  /-- What declarations call the class. -/
  key : String
  moduleName : String
  localName : String
  pinned : Option String
  /-- The fields, those of the bases included. -/
  fields : List Field
  /-- The class and all its ancestors, each before its bases. -/
  lineage : List ClassId
  rules : ClassRules := {}
  /-- A default of the class stands where the hook of the class is looked for. -/
  hidesHook : Bool := false

namespace OccurrenceClass

/-- The name that is stored with each publication: the pinned one, if it is not empty. -/
def typeName (c : OccurrenceClass) : String :=
  match c.pinned with
  | some name => if name = "" then c.moduleName ++ "." ++ c.localName else name
  | none => c.moduleName ++ "." ++ c.localName

end OccurrenceClass

/-- The declaration of a class.  The rules are all that hold for it, inherited ones included. -/
structure ClassDeclaration where
  key : String
  fields : List Field
  moduleName : Option String
  localName : Option String
  pinned : Option String
  bases : List String
  rules : ClassRules := {}

/-- The name of the hook that is called on a new object once its values are read. -/
def hookName : String := "model_post_init"

/-- The declaration has a default under the name of the hook, so that the value of that field is
called instead. -/
def ClassDeclaration.hidesHook (d : ClassDeclaration) : Bool :=
  d.fields.any fun f => f.name == hookName && f.default.isSome

structure Catalogue where
  classes : List OccurrenceClass
  /-- The class that each type name stands for. -/
  registry : List (String × ClassId)

namespace Catalogue

/-- The module of the base class. -/
def baseModule : String := "courier.domain.shared.occurrence"

def baseClass : OccurrenceClass :=
  { key := "Occurrence", moduleName := baseModule, localName := "Occurrence", pinned := none,
    fields := [], lineage := [0] }

def initial : Catalogue := { classes := [baseClass], registry := [] }

/-- The class that declarations call `key`: the latest of that name. -/
def byKey? (cat : Catalogue) (key : String) : Option ClassId :=
  let places := (List.range cat.classes.length).filter fun i =>
    (cat.classes[i]?.map (·.key)) = some key
  places.getLast?

def lineage (cat : Catalogue) (id : ClassId) : List ClassId :=
  (cat.classes[id]?.map (·.lineage)).getD []

def typeName (cat : Catalogue) (id : ClassId) : String :=
  (cat.classes[id]?.map (·.typeName)).getD ""

def key (cat : Catalogue) (id : ClassId) : String :=
  (cat.classes[id]?.map (·.key)).getD ""

def fields (cat : Catalogue) (id : ClassId) : List Field :=
  (cat.classes[id]?.map (·.fields)).getD []

def rules (cat : Catalogue) (id : ClassId) : ClassRules :=
  (cat.classes[id]?.map (·.rules)).getD {}

def hidesHook (cat : Catalogue) (id : ClassId) : Bool :=
  (cat.classes[id]?.map (·.hidesHook)).getD false

/-- The class registered under a type name. -/
def registered? (cat : Catalogue) (name : String) : Option ClassId := member? name cat.registry

/-- The catalogue without the registration of a type name. -/
def forget (cat : Catalogue) (name : String) : Catalogue :=
  { cat with registry := eraseMember name cat.registry }

/-- `c` is `ancestor` or derives from it. -/
def derives (cat : Catalogue) (c ancestor : ClassId) : Bool := (cat.lineage c).contains ancestor

/-- Fields by name, where the first of several fields of one name counts. -/
def mergeFields (inherited own : List Field) : List Field :=
  let named := collectMembers ((inherited.reverse ++ own).map fun f => (f.name, f))
  named.map (·.2)

/-- The bases that a declaration names; the base class if it names none. -/
def bases? (cat : Catalogue) (names : List String) : Except Fault (List ClassId) :=
  if names = [] then .ok [0]
  else
    names.mapM fun name =>
      match cat.byKey? name with
      | some id => .ok id
      | none => .error (.foreign .key name)

/-- The last part of a dotted name. -/
def simpleName (localName : String) : String :=
  String.ofList (localName.toList.reverse.takeWhile (· ≠ '.')).reverse

/-- A class that a row of bases names more than once. -/
def repeatedBase? (bases : List ClassId) : Option ClassId :=
  bases.find? fun b => 1 < bases.count b

/-- The name of a class without its surroundings. -/
def shortName (cat : Catalogue) (id : ClassId) : String :=
  simpleName ((cat.classes[id]?.map (·.localName)).getD "")

/-- The fault of bases that are repeated or contradict each other. -/
def noOrder (cat : Catalogue) (bases contradicting : List ClassId) : Fault :=
  .foreign .type (match repeatedBase? bases with
    | some b => "duplicate base class " ++ cat.shortName b
    | none => "Cannot create a consistent method resolution\norder (MRO) for bases " ++
        String.intercalate ", " (contradicting.map cat.shortName))

/-- The catalogue with one more class.  It fails if the bases have no common order. -/
def declare (cat : Catalogue) (homeModule : String) (d : ClassDeclaration) :
    Except Fault (ClassId × Catalogue) := do
  let bases ← cat.bases? d.bases
  let id := cat.classes.length
  match Lineage.extend id bases (bases.map cat.lineage) with
  | .error contradicting => .error (cat.noOrder bases contradicting)
  | .ok lineage =>
    let inherited := (bases.map cat.fields).flatten
    let c : OccurrenceClass :=
      { key := d.key, moduleName := d.moduleName.getD homeModule,
        localName := d.localName.getD d.key, pinned := d.pinned,
        fields := mergeFields inherited d.fields, lineage := lineage, rules := d.rules,
        hidesHook := d.hidesHook }
    .ok (id, { classes := cat.classes ++ [c],
               registry := insertMember c.typeName id cat.registry })

/-- The catalogue with a row of further classes. -/
def declareAll (cat : Catalogue) (homeModule : String) (ds : List ClassDeclaration) :
    Except Fault Catalogue :=
  ds.foldlM (fun cat d => (cat.declare homeModule d).map (·.2)) cat

end Catalogue

end DeliveryLedger
