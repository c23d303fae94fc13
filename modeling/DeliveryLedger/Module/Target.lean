import DeliveryLedger.Occurrence.Catalogue
/-!
What the attributes of a module may hold: as declared (`Target`), and as found after the
module was imported (`Object`).
-/

namespace DeliveryLedger

/-- The declaration of an attribute. -/
inductive Target where
  | value (data : Json)
  /-- The class of occurrences that declarations call `key`. -/
  | occurrence (key : String)
  | handlerClass (key : String)
  /-- The only instance of a declared handler. -/
  | handler (key : String)
  /-- A ready descriptor of the instance of a declared handler. -/
  | descriptor (key : String)
  | list (items : List Target)
  | tuple (items : List Target)
  /-- Items that can be taken only once. -/
  | stream (items : List Target)
  /-- Such items, behind the last of which taking the next one fails. -/
  | breaking (items : List Target) (fault : Fault)
  /-- A class that is neither a handler nor an occurrence. -/
  | plainClass (attributes : List (String × Target))
  /-- A function of no arguments. -/
  | factory (returns : Target)
  /-- A function of no arguments that fails. -/
  | failing (fault : Fault)
deriving Repr, Inhabited

/-- What a name stands for. -/
inductive Object where
  | value (data : Json)
  | moduleRef (name : String)
  | occurrenceClass (id : ClassId)
  /-- The base class of all handlers. -/
  | handlerBase
  | handlerClass (key : String)
  | handler (key : String)
  | descriptor (key : String)
  | list (items : List Object)
  | tuple (items : List Object)
  | stream (id : Nat) (items : List Object)
  | breaking (id : Nat) (items : List Object) (fault : Fault)
  | plainClass (id : Nat) (name : String)
  | factory (returns : Target)
  | failing (fault : Fault)
deriving Repr, Inhabited

/-- What a name can be bound in. -/
inductive Owner where
  | moduleOf (name : String)
  | classOf (id : ClassId)
  | plainOf (id : Nat)
deriving DecidableEq, Repr

end DeliveryLedger
