import DeliveryLedger.Proofs.Lifecycle
import DeliveryLedger.Resubmission
import Mathlib.Algebra.Order.Group.Multiset
/-!
Deliveries in flight: dispatches, invocations and sweeps that are under way on one node.

A `World` is a node with everything under way on it.  A `Step` takes one of these threads from
one wait to the next, in any order; handlers may fail and outages may strike at any step, and
between two steps the process may end.
-/

namespace DeliveryLedger

/-- Something under way, as it stands between two of its waits. -/
inductive Thread where
  /-- A dispatch has made its records and is about to store them. -/
  | storing (o : Occurrence) (handlers : List HandlerDescriptor)
      (records : List PublicationRecord)
  /-- A handler is about to be invoked for a record. -/
  | invoking (t : Task)
  /-- A handler is at work. -/
  | running (t : Task)
  /-- A handler has returned, and its record is about to be completed. -/
  | confirming (t : Task)
  /-- A sweep, with the records that it has still to look at. -/
  | sweeping (rest : List PublicationRecord)

/-- A node with everything under way on it. -/
structure World where
  node : Node
  threads : Multiset Thread

/-- What a step shows of itself. -/
inductive Event where
  /-- A dispatch stored a record that was not stored before. -/
  | created (r : PublicationRecord)
  /-- A handler returned normally from an invocation for a record. -/
  | returned (handlerId : String) (id : RecordId)
  /-- A record was completed after an invocation. -/
  | confirmed (id : RecordId)
  /-- A record was completed by a call for this purpose. -/
  | completed (id : RecordId)

/-- The event of a call made for the purpose of completing a record. -/
def Event.IsCall : Event → Prop
  | .completed _ => True
  | _ => False

/-- The next wait of a thread fails, and with it the thread. -/
inductive Thread.Fails : Thread → Node → Node → Prop where
  | store {p q : Node} {o : Occurrence} {handlers : List HandlerDescriptor}
      {records : List PublicationRecord} {fault : Fault}
      (h : (Ledger.insert records).outcome p = (.error fault, q)) :
      Fails (.storing o handlers records) p q
  | invoke {p q : Node} {t : Task} {fault : Fault}
      (h : (Dispatch.announce t.handler t.occurrence).outcome p = (.error fault, q)) :
      Fails (.invoking t) p q
  | raise {p q : Node} {t : Task} {body : String} {fault : Fault}
      (hbody : t.handler.body = some body)
      (h : (Dispatch.react body).outcome p = (.error fault, q)) : Fails (.running t) p q
  | confirm {p q : Node} {t : Task} {fault : Fault}
      (h : (Ledger.complete t.record).outcome p = (.error fault, q)) :
      Fails (.confirming t) p q

/-- The event of a completion that may have won. -/
def Event.ofCompletion (event : RecordId → Event) (id : RecordId) (won : Bool) : List Event :=
  if won then [event id] else []

inductive Step : World → List Event → World → Prop where
  /-- Anything else changes: the clock is set, handlers behave in another way, outages come and
  go.  A call that fails is nothing more. -/
  | change {p q : Node} {u : Multiset Thread} (hstore : q.store = p.store)
      (hdrawn : q.drawn = p.drawn) (haware : p.clock.now.isAware → q.clock.now.isAware) :
      Step ⟨p, u⟩ [] ⟨q, u⟩
  /-- An occurrence is published: identifiers are drawn for the records of its handlers. -/
  | publish {p : Node} {u : Multiset Thread} {o : Occurrence}
      {handlers : List HandlerDescriptor}
      (hhandlers : handlers = p.registry.handlersFor p.space.catalogue o.type) :
      Step ⟨p, u⟩ []
        ⟨{ p with drawn := p.drawn + handlers.length },
          .storing o handlers (Ledger.newRecords p.drawn
            (Payload.ofOccurrence p.space.catalogue o) p.clock.now (handlers.map (·.id))) ::ₘ u⟩
  | store {p q : Node} {u : Multiset Thread} {o : Occurrence}
      {handlers : List HandlerDescriptor} {records : List PublicationRecord}
      (h : (Ledger.insert records).outcome p = (.ok (), q)) :
      Step ⟨p, .storing o handlers records ::ₘ u⟩
        ((records.filter fun r => r.id ∉ p.store.ids).map .created)
        ⟨q, ((Dispatch.tasks o handlers records).map .invoking : List Thread) + u⟩
  | invoke {p q : Node} {u : Multiset Thread} {t : Task} {body : String}
      (h : (Dispatch.announce t.handler t.occurrence).outcome p = (.ok body, q)) :
      Step ⟨p, .invoking t ::ₘ u⟩ [] ⟨q, .running t ::ₘ u⟩
  | returns {p q : Node} {u : Multiset Thread} {t : Task} {body : String}
      (hbody : t.handler.body = some body)
      (h : (Dispatch.react body).outcome p = (.ok (), q)) :
      Step ⟨p, .running t ::ₘ u⟩ [.returned t.handler.id t.record] ⟨q, .confirming t ::ₘ u⟩
  | confirm {p q : Node} {u : Multiset Thread} {t : Task} {won : Bool}
      (h : (Ledger.complete t.record).outcome p = (.ok won, q)) :
      Step ⟨p, .confirming t ::ₘ u⟩ (Event.ofCompletion .confirmed t.record won) ⟨q, u⟩
  | fail {p q : Node} {u : Multiset Thread} {t : Thread} (h : t.Fails p q) :
      Step ⟨p, t ::ₘ u⟩ [] ⟨q, u⟩
  | sweep {p q : Node} {u : Multiset Thread} {records : List PublicationRecord}
      (h : Ledger.findIncomplete.outcome p = (.ok records, q)) :
      Step ⟨p, u⟩ [] ⟨q, .sweeping records ::ₘ u⟩
  | sweepOlderThan {p q : Node} {u : Multiset Thread} {records : List PublicationRecord}
      {age : Duration} (h : (Ledger.findIncompleteOlderThan age).outcome p = (.ok records, q)) :
      Step ⟨p, u⟩ [] ⟨q, .sweeping records ::ₘ u⟩
  /-- A record is not selected, or it cannot be replayed. -/
  | skip {p : Node} {u : Multiset Thread} {r : PublicationRecord}
      {rest : List PublicationRecord} :
      Step ⟨p, .sweeping (r :: rest) ::ₘ u⟩ [] ⟨p, .sweeping rest ::ₘ u⟩
  | replay {p : Node} {u : Multiset Thread} {r : PublicationRecord}
      {rest : List PublicationRecord} {o : Occurrence} {space : ModuleSpace}
      {handler : HandlerDescriptor} (hresolve : r.payload.resolve p.space = (.ok o, space))
      (hhandler : p.registry.get? r.handlerId = some handler) :
      Step ⟨p, .sweeping (r :: rest) ::ₘ u⟩ []
        ⟨{ p with space := space },
          .invoking ⟨handler, r.id, o⟩ ::ₘ .sweeping rest ::ₘ u⟩
  /-- A sweep ends, with its last record, with a failing predicate or with a fault that is raised
  over a payload. -/
  | finish {p : Node} {u : Multiset Thread} {rest : List PublicationRecord} :
      Step ⟨p, .sweeping rest ::ₘ u⟩ [] ⟨p, u⟩
  | complete {p q : Node} {u : Multiset Thread} {id : RecordId} {won : Bool}
      (h : (Ledger.complete id).outcome p = (.ok won, q)) :
      Step ⟨p, u⟩ (Event.ofCompletion .completed id won) ⟨q, u⟩
  | prune {p q : Node} {u : Multiset Thread} {age : Duration} {count : Nat}
      (h : (Ledger.prune age).outcome p = (.ok count, q)) : Step ⟨p, u⟩ [] ⟨q, u⟩
  /-- A process ends and another one takes its place, with the same database. -/
  | restart {p q : Node} {u : Multiset Thread} (htable : p.store.isTable)
      (hstore : q.store = p.store) (hdrawn : q.drawn = p.drawn)
      (haware : p.clock.now.isAware → q.clock.now.isAware) : Step ⟨p, u⟩ [] ⟨q, 0⟩

theorem Event.not_isCall_confirmed (id : RecordId) (won : Bool) :
    ∀ e ∈ Event.ofCompletion .confirmed id won, ¬ e.IsCall := by
  cases won <;> simp [Event.ofCompletion, IsCall]

theorem Event.not_isCall_created (records : List PublicationRecord) :
    ∀ e ∈ records.map Event.created, ¬ e.IsCall := by
  intro e he
  obtain ⟨r, -, rfl⟩ := List.mem_map.mp he
  exact id

/-- Any number of steps, with all that they show. -/
inductive Run : World → List Event → World → Prop where
  | here (w : World) : Run w [] w
  | step {w m z : World} {E F : List Event} (h : Step w E m) (rest : Run m F z) : Run w (E ++ F) z

theorem Run.trans {w m z : World} {E F : List Event} (h : Run w E m) (k : Run m F z) :
    Run w (E ++ F) z := by
  induction h with
  | here => exact k
  | step h _ ih =>
      rw [List.append_assoc]
      exact .step h (ih k)

end DeliveryLedger
