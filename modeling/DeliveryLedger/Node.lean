import DeliveryLedger.Log
import DeliveryLedger.Publication.Registry
import DeliveryLedger.Store.Memory
import DeliveryLedger.Store.Table
import DeliveryLedger.Time.Clock
/-!
One running node of the ledger: its clock, its store, its modules and handlers, the tasks
that it has under way, and what it has logged.

What handlers do, and when the store is out of order, is part of the state: a handler follows
a script that says how it reacts to each invocation, and an outage says which calls of a
store operation fail.  A step of the node is an `Act`: it may fail, and what it changed
before it failed stays changed.
-/

namespace DeliveryLedger

/-- One invocation of a handler. -/
structure Call where
  handlerId : String
  type : ClassId
  payload : String
deriving DecidableEq, Repr

/-- What a handler does with an occurrence: it may take time, and it may fail. -/
structure Reaction where
  /-- The seconds that the clock moves. -/
  advance : Option Json
  fault : Option Fault

/-- How a handler reacts to its first, second, … invocation. -/
structure Script where
  /-- In the background, the handler waits for its gate to open before it reacts. -/
  pauses : Bool
  reaction : Nat → Reaction

namespace Script

/-- The script of a handler that always returns at once. -/
def silent : Script := ⟨false, fun _ => ⟨none, none⟩⟩

/-- Whether the `n`-th of the next invocations is among the first `count`; a negative count
has no end. -/
def amongFirst (count : Int) (n : Nat) : Bool := count < 0 || (n : Int) < count

/-- The script of a handler that moves the clock and fails a number of times. -/
def failing (pauses : Bool) (advance : Option Json) (count : Int) (fault : Fault) : Script :=
  ⟨pauses, fun n => ⟨advance, if amongFirst count n then some fault else none⟩⟩

end Script

inductive StoreMethod where
  | insert
  | get
  | findIncomplete
  | findIncompleteOlderThan
  | findIncompleteByFingerprint
  | complete
  | deleteCompletedOlderThan
deriving DecidableEq, Repr

/-- Calls of a store operation that fail. -/
structure Outage where
  method : StoreMethod
  /-- Only calls that concern this handler count. -/
  handlerId : Option String
  fault : Fault
  /-- Whether the first, second, … call fails. -/
  strikes : Nat → Bool
  /-- The calls so far. -/
  calls : Nat

/-- Connections to the database that fail. -/
structure DatabaseOutage where
  message : String
  strikes : Nat → Bool
  calls : Nat

inductive Store where
  | memory (m : Memory)
  | table (t : Table)
deriving Repr, Inhabited

namespace Store

/-- The stored records in the order of their insertion. -/
def records : Store → List PublicationRecord
  | .memory m => m.records
  | .table t => t.records

def get? (s : Store) (id : RecordId) : Option PublicationRecord :=
  match s with
  | .memory m => m.get? id
  | .table t => t.get? id

def isTable : Store → Bool
  | .memory _ => false
  | .table _ => true

end Store

/-- The invocation of a handler for one record. -/
structure Task where
  handler : HandlerDescriptor
  record : RecordId
  occurrence : Occurrence

structure Node where
  space : ModuleSpace
  clock : Clock
  /-- The number of record identifiers that were drawn. -/
  drawn : Nat
  store : Store
  outages : List Outage
  databaseOutage : Option DatabaseOutage
  registry : HandlerRegistry
  scripts : List (String × Script)
  /-- How often each handler has reacted under its present script. -/
  reacted : List (String × Nat)
  /-- The handlers whose gates are open. -/
  opened : List String
  journal : List Call
  log : List LogLine
  /-- Background tasks that have not started. -/
  queued : List Task
  /-- Background tasks that wait for a gate. -/
  paused : List Task
  /-- The occurrences that each collector has seen. -/
  captures : List (String × List Occurrence)

namespace Node

/-- A node at its beginning. -/
def start (space : ModuleSpace) (clock : Clock) (store : Store) : Node :=
  { space, clock, drawn := 0, store, outages := [], databaseOutage := none,
    registry := HandlerRegistry.empty, scripts := [], reacted := [], opened := [],
    journal := [], log := [], queued := [], paused := [], captures := [] }

/-- The background tasks that are not over. -/
def background (p : Node) : List Task := p.queued ++ p.paused

def script (p : Node) (handler : String) : Script :=
  (member? handler p.scripts).getD Script.silent

/-- The node after it has logged further lines. -/
def logged (p : Node) (lines : List LogLine) : Node := { p with log := p.log ++ lines }

end Node

/-- A step of the node. -/
abbrev Act (α : Type) := ExceptT Fault (StateM Node) α

namespace Act

/-- The result of an act and the node after it. -/
def outcome {α : Type} (act : Act α) (p : Node) : Except Fault α × Node :=
  (ExceptT.run act).run p

def lift {α : Type} (r : Except Fault α) : Act α := ExceptT.mk (pure r)

/-- An act whose fault is kept as a value, and which therefore does not fail. -/
def attempt {α : Type} (act : Act α) : Act (Except Fault α) :=
  ExceptT.mk do
    let r ← ExceptT.run act
    pure (.ok r)

def logged (level : Level) (text : String) : Act Unit :=
  modify fun p => p.logged [⟨level, text⟩]

end Act

end DeliveryLedger
