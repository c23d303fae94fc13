import DeliveryLedger.Module.Space
import DeliveryLedger.Occurrence.Basic
import DeliveryLedger.Json.Parser
import DeliveryLedger.Digest.Sha256
/-!
Occurrences as they are stored: the type name and the canonical JSON text of the fields.

The fingerprint is a digest of both.  `Payload.resolve` rebuilds the occurrence; it says so if
the type is gone, if an import on the way fails, or if the text no longer fits the type.  A fault
that the class raises over the text is none of these and passes through.
-/

namespace DeliveryLedger

structure Payload where
  occurrenceType : String
  text : String
deriving DecidableEq, Repr, Inhabited

namespace Payload

/-- The stored form of an occurrence. -/
def ofOccurrence (cat : Catalogue) (o : Occurrence) : Payload :=
  ⟨cat.typeName o.type, o.toJson.canonical⟩

/-- The text that the fingerprint is a digest of. -/
def digestText (p : Payload) : String := p.occurrenceType ++ "\n" ++ p.text

/-- The digest of type and text, the same for occurrences with the same stored form. -/
def fingerprint (p : Payload) : String := Sha256.hex p.digestText.toUTF8.toList

/-- How deep lists and objects may lie inside each other in a text that is read. -/
def nestingLimit : Nat := 200

/-- The occurrence of a class that a text describes, or why there is none. -/
def rebuild (cat : Catalogue) (type : ClassId) (text : String) : Except Rejection Occurrence :=
  match Json.read? text with
  | none => .error (.mistakes [[]])
  | some data =>
    if data.depth ≤ nestingLimit then Occurrence.check cat type data
    else .error (.mistakes [[]])

/-- The reason why a stored occurrence cannot be rebuilt. -/
inductive Unresolvable where
  | importFailed (fault : Fault)
  | notRegistered
  | invalid (mistakes : Nat)

def Unresolvable.text : Unresolvable → String
  | .importFailed fault => "import failed: " ++ fault.message
  | .notRegistered => "type is not registered"
  | .invalid mistakes => "payload does not validate: " ++ Decimal.natText mistakes ++ " errors"

/-- The fault of an occurrence of this type that cannot be rebuilt. -/
def Unresolvable.fault (reason : Unresolvable) (occurrenceType : String) : Fault :=
  .unresolvable occurrenceType reason.text

/-- The occurrence rebuilt; the modules imported on the way stay imported. -/
def resolve (space : ModuleSpace) (p : Payload) : Except Fault Occurrence × ModuleSpace :=
  let search := space.resolveType p.occurrenceType
  let result : Except Fault Occurrence :=
    match search.outcome with
    | .error fault => .error (Unresolvable.fault (.importFailed fault) p.occurrenceType)
    | .ok none => .error (Unresolvable.fault .notRegistered p.occurrenceType)
    | .ok (some type) =>
      match rebuild search.space.catalogue type p.text with
      | .ok o => .ok o
      | .error (.mistakes paths) =>
        .error (Unresolvable.fault (.invalid paths.length) p.occurrenceType)
      | .error (.raised fault) => .error fault
  (result, search.space)

end Payload

end DeliveryLedger
