import DeliveryLedger.CommandLine.Words
/-!
The commands, and the command lines that spell them.
-/

namespace DeliveryLedger.CommandLine

inductive Command where
  /-- List the pending records, of a least age and of some handlers. -/
  | pending (olderThan : Binary64) (handlers : List String)
  /-- Replay them. -/
  | resubmit (olderThan : Binary64) (handlers : List String)
  /-- Complete a single record. -/
  | complete (id : String)
  /-- Delete completed records of a least age. -/
  | prune (olderThan : Binary64)
  /-- Bring the database up to date. -/
  | migrate
deriving DecidableEq, Repr

namespace Command

def olderThan : Parameter := ⟨"older-than", false⟩

def handler : Parameter := ⟨"handler", true⟩

def recordId : Parameter := ⟨"record-id", false⟩

/-- A command read from the words behind its name. -/
def read {α : Type} (ps : List Parameter) (words : List String)
    (build : Given → Except UsageFault α) : Except UsageFault α := do
  let (given, leftOver) ← assign ps words
  let command ← build given
  checkLeftOver leftOver
  pure command

/-- The age and the handlers that select records; without an age, records of any. -/
def selection (given : Given) : Except UsageFault (Binary64 × List String) := do
  let age ← match values given olderThan.name with
    | [] => pure Binary64.zero
    | value :: _ => number value
  pure (age, values given handler.name)

/-- The command that a command line spells. -/
def ofWords (words : List String) : Except UsageFault Command :=
  match words with
  | "pending" :: rest =>
    read [olderThan, handler] rest fun given => do
      let (age, handlers) ← selection given
      pure (.pending age handlers)
  | "resubmit" :: rest =>
    read [olderThan, handler] rest fun given => do
      let (age, handlers) ← selection given
      pure (.resubmit age handlers)
  | "complete" :: rest =>
    read [recordId] rest fun given => do pure (.complete (← required given recordId.name))
  | "prune" :: rest =>
    read [olderThan] rest fun given => do
      pure (.prune (← number (← required given olderThan.name)))
  | "migrate" :: rest => read [] rest fun _ => pure .migrate
  | _ => .error .unknownCommand

end Command

end DeliveryLedger.CommandLine
