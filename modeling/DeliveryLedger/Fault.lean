import DeliveryLedger.Checked
import DeliveryLedger.Ordered
import DeliveryLedger.RecordId
import DeliveryLedger.Time.Duration
/-!
Everything that can go wrong, by cause, and the text that each cause has.

Domain faults are the caller's, infrastructure faults the system's.  Handlers, modules and
stores bring faults of their own, which carry a kind and a text.
-/

namespace DeliveryLedger

/-- The classes of the ledger's own faults. -/
inductive Category where
  | ledger
  | domain
  | notFound
  | validation
  | conflict
  | unknownRecord
  | duplicateRecord
  | ambiguousPublication
  | unresolvablePayload
  | infrastructure
  | storeUnavailable
  | configuration
deriving DecidableEq, Repr

namespace Category

/-- The class that a class of faults is a special case of. -/
def parent? : Category → Option Category
  | .ledger => none
  | .domain | .infrastructure => some .ledger
  | .notFound | .validation | .conflict | .unresolvablePayload => some .domain
  | .unknownRecord => some .notFound
  | .duplicateRecord | .ambiguousPublication => some .conflict
  | .storeUnavailable | .configuration => some .infrastructure

/-- The class and all classes above it. -/
def ancestry (c : Category) : List Category :=
  let up (c : Option Category) : Option Category := c.bind parent?
  [some c, up (some c), up (up (some c)), up (up (up (some c)))].filterMap id

end Category

/-- Kinds of faults that come from outside the ledger. -/
inductive ForeignKind where
  | runtime
  | value
  | key
  | type
  | importing
  | connection
  | assertion
  | notImplemented
  | argument
  | invalidRequest
  | attribute
deriving DecidableEq, Repr

inductive Fault where
  /-- A fault of the ledger, with a code if it is not the usual one. -/
  | general (category : Category) (message : String) (code : Option String)
  /-- Input that breaks a rule, with the field concerned. -/
  | invalidInput (message : String) (field : Option String)
  | unknownRecord (id : Json)
  /-- A batch that collides with stored records. -/
  | duplicateRecords (message : String) (ids : List String)
  /-- More than one pending record matches a fingerprint. -/
  | ambiguous (handlerId fingerprint : String) (found : Int)
  /-- A stored occurrence that cannot be rebuilt. -/
  | unresolvable (occurrenceType reason : String)
  /-- Data that does not fit its declaration, with the place of each mistake. -/
  | malformed (places : List String)
  /-- Settings that cannot be read at all. -/
  | unreadableSettings
  /-- A naive and an aware instant were ordered. -/
  | unorderedInstants
  /-- A naive and an aware instant were subtracted. -/
  | unrelatedInstants
  | time (cause : TimeFault)
  /-- A unit of work was used after its end. -/
  | finishedUnit
  /-- A manual clock was started without an offset. -/
  | naiveClock
  /-- A view of captured occurrences is empty. -/
  | nothingCaptured
  /-- A handler class without a body. -/
  | unimplemented (handler : String)
  /-- A cron expression of a wrong length. -/
  | cronFields (found : Nat)
  /-- A log level that does not exist. -/
  | unknownLevel (name : String)
  /-- A percent sign that an option cannot hold. -/
  | stray (value : String) (position : Nat)
  /-- A mark of style that closes what is not open. -/
  | unmatchedMark (inner : String) (position : Nat)
  /-- A home directory that does not exist. -/
  | unknownHome
  | foreign (kind : ForeignKind) (text : String)
deriving Repr

namespace Fault

def storeUnavailable (message : String) : Fault := .general .storeUnavailable message none

def configuration (message : String) : Fault := .general .configuration message none

/-- The text of a fault. -/
def message : Fault → String
  | .general _ message _ => message
  | .invalidInput message _ => message
  | .unknownRecord id => "Unknown publication record: " ++ Text.plain id
  | .duplicateRecords message _ => message
  | .ambiguous handlerId fingerprint found =>
    Decimal.intText found ++ " pending publications for handler '" ++ handlerId ++
      "' share fingerprint " ++ String.ofList (fingerprint.toList.take 12) ++
      "; complete them by record id instead"
  | .unresolvable occurrenceType reason =>
    "Cannot resolve occurrence type '" ++ occurrenceType ++ "': " ++ reason
  | .malformed places => Decimal.natText places.length ++ " errors"
  | .unreadableSettings => "settings cannot be read"
  | .unorderedInstants => "can't compare offset-naive and offset-aware datetimes"
  | .unrelatedInstants => "can't subtract offset-naive and offset-aware datetimes"
  | .time cause => cause.message
  | .finishedUnit => "Unit of work already finished"
  | .naiveClock => "ManualClock needs a timezone-aware start instant"
  | .nothingCaptured => "No matching occurrence was published"
  | .unimplemented handler => handler ++ " must implement handle()"
  | .cronFields found =>
    "Wrong number of fields; got " ++ Decimal.natText found ++ ", expected 5"
  | .unknownLevel name => "Unknown level: " ++ Text.quoted name
  | .stray value position =>
    "invalid interpolation syntax in " ++ Text.quoted value ++ " at position " ++
      Decimal.natText position
  | .unmatchedMark inner position =>
    "closing tag '[" ++ inner ++ "]' at position " ++ Decimal.natText position ++
      (if inner = "/" then " has nothing to close" else " doesn't match any open tag")
  | .unknownHome => "Could not determine home directory."
  | .foreign .key text => Text.quoted text
  | .foreign _ text => text

/-- The class of a fault, if it is one of the ledger's own. -/
def category? : Fault → Option Category
  | .general category _ _ => some category
  | .invalidInput .. => some .validation
  | .unknownRecord .. => some .unknownRecord
  | .duplicateRecords .. => some .duplicateRecord
  | .ambiguous .. => some .ambiguousPublication
  | .unresolvable .. => some .unresolvablePayload
  | _ => none

/-- The code of a fault, if it has one besides the name of its class. -/
def code? : Fault → Option String
  | .general _ _ code => if code = some "" then none else code
  | .invalidInput .. => some "VALIDATION_ERROR"
  | .unknownRecord .. => some "UNKNOWN_RECORD"
  | .duplicateRecords .. => some "DUPLICATE_RECORD"
  | .ambiguous .. => some "AMBIGUOUS_PUBLICATION"
  | .unresolvable .. => some "PAYLOAD_UNRESOLVABLE"
  | _ => none

/-- The fault belongs to a missing or broken module, which a search may step over. -/
def isImportFault : Fault → Bool
  | .foreign .importing _ => true
  | _ => false

/-- The fault says that something is of the wrong kind for what is done with it. -/
def isTypeFault : Fault → Bool
  | .unorderedInstants | .unrelatedInstants => true
  | .foreign .type _ => true
  | _ => false

/-- The fault says that a stored occurrence cannot be rebuilt. -/
def isUnresolvable (f : Fault) : Bool := f.category? = some .unresolvablePayload

/-- The fault is a wrong setup. -/
def isConfigurationFault : Fault → Bool
  | .general .configuration _ _ => true
  | _ => false

end Fault

/-- The fault that all mistakes make together, with their places in order. -/
def Fault.ofMistakes (paths : List Path) : Fault :=
  .malformed (sortTexts (paths.map Path.dotted))

/-- The result of a check, as a fault if there are mistakes. -/
def Checked.orFault {α : Type} : Checked α → Except Fault α
  | .ok a => .ok a
  | .error paths => .error (.ofMistakes paths)

/-- Why data is refused: for its mistakes, or because a check of it raised another fault. -/
inductive Rejection where
  | mistakes (paths : List Path)
  | raised (fault : Fault)

def Rejection.fault : Rejection → Fault
  | .mistakes paths => .ofMistakes paths
  | .raised fault => fault

/-- The result of a step that may fail with a time fault, as a fault. -/
def liftTime {α : Type} : Except TimeFault α → Except Fault α
  | .ok a => .ok a
  | .error cause => .error (.time cause)

end DeliveryLedger
