import DeliveryLedger.Publication.Handler
/-!
The table of registered handlers.

It is built once from a row of handlers, each with an identity of its own.  An occurrence
goes to the handlers of its class and of all ancestors, the most specific class first and in
the order of registration within a class.
-/

namespace DeliveryLedger

/-- Registered handlers in the order of registration; no two share an identity. -/
structure HandlerRegistry where
  descriptors : List HandlerDescriptor
  nodup : (descriptors.map (·.id)).Nodup

namespace HandlerRegistry

def empty : HandlerRegistry := ⟨[], List.nodup_nil⟩

instance : Inhabited HandlerRegistry := ⟨empty⟩

def ids (r : HandlerRegistry) : List String := r.descriptors.map (·.id)

/-- The fault of an identity that is taken. -/
def registeredTwice (id : String) : Fault :=
  .configuration ("Handler id '" ++ id ++ "' is registered twice")

/-- The registry with one more handler at its end. -/
def add (r : HandlerRegistry) (d : HandlerDescriptor) : Except Fault HandlerRegistry :=
  if h : d.id ∈ r.descriptors.map (·.id) then .error (registeredTwice d.id)
  else
    .ok ⟨r.descriptors ++ [d], by
      rw [List.map_append, List.map_singleton, List.nodup_append]
      refine ⟨r.nodup, by simp, ?_⟩
      intro a ha b hb
      rw [List.mem_singleton] at hb
      subst hb
      exact fun hab => h (hab ▸ ha)⟩

/-- The registry of a row of handlers, or the first fault among them. -/
def build (handlers : List Registrable) : Except Fault HandlerRegistry :=
  handlers.foldlM (fun r h => do r.add (← h.descriptor?)) empty

/-- The handlers that an occurrence of a class goes to. -/
def handlersFor (r : HandlerRegistry) (cat : Catalogue) (type : ClassId) :
    List HandlerDescriptor :=
  (cat.lineage type).flatMap fun c => r.descriptors.filter (·.occurrenceType = c)

/-- The handler of an identity. -/
def get? (r : HandlerRegistry) (id : String) : Option HandlerDescriptor :=
  r.descriptors.find? (·.id = id)

def contains (r : HandlerRegistry) (id : String) : Bool := r.ids.contains id

def size (r : HandlerRegistry) : Nat := r.descriptors.length

end HandlerRegistry

end DeliveryLedger
