import DeliveryLedger.Fault
/-!
Units of work: callbacks that wait for a commit.

A callback is accepted until the unit is finished.  A successful commit finishes the unit and
runs the callbacks in order, a failing callback being logged and passed over; a commit that
the backend refuses keeps them.  A rollback drops them before the backend is asked.
-/

namespace DeliveryLedger

structure UnitOfWork (κ : Type) where
  /-- The callbacks that wait. -/
  pending : List κ
  finished : Bool
deriving Repr, Inhabited

namespace UnitOfWork

variable {κ σ : Type}

/-- A unit of work at its beginning. -/
def fresh : UnitOfWork κ := ⟨[], false⟩

/-- A callback accepted, unless the unit is finished. -/
def afterCommit (u : UnitOfWork κ) (callback : κ) : Except Fault (UnitOfWork κ) :=
  if u.finished then .error .finishedUnit
  else .ok { u with pending := u.pending ++ [callback] }

/-- A finished unit without callbacks. -/
def closed : UnitOfWork κ := ⟨[], true⟩

/-- The transaction behind a unit, and the surroundings in which callbacks run. -/
structure Backend (κ σ : Type) where
  commit : σ → Except Fault Unit × σ
  rollback : σ → Except Fault Unit × σ
  /-- A callback runs; it may even reach the unit itself. -/
  run : κ → UnitOfWork κ × σ → Except Fault Unit × (UnitOfWork κ × σ)
  /-- A failed callback is logged. -/
  failed : Fault → σ → σ
  /-- The number of callbacks that a rollback dropped is logged. -/
  dropped : Nat → σ → σ

/-- Callbacks run in order; a failing one is logged, and the next one runs. -/
def runAll (b : Backend κ σ) : List κ → UnitOfWork κ × σ → UnitOfWork κ × σ
  | [], s => s
  | c :: cs, s =>
    match b.run c s with
    | (.ok (), s) => runAll b cs s
    | (.error fault, (u, s)) => runAll b cs (u, b.failed fault s)

/-- The backend is committed; if that succeeds, the unit is finished and its callbacks run. -/
def commit (b : Backend κ σ) (s : UnitOfWork κ × σ) : Except Fault Unit × (UnitOfWork κ × σ) :=
  match b.commit s.2 with
  | (.error fault, t) => (.error fault, (s.1, t))
  | (.ok (), t) => (.ok (), runAll b s.1.pending (closed, t))

/-- The unit is finished and its callbacks dropped, then the backend is rolled back. -/
def rollback (b : Backend κ σ) (s : UnitOfWork κ × σ) :
    Except Fault Unit × (UnitOfWork κ × σ) :=
  let count := s.1.pending.length
  match b.rollback s.2 with
  | (.error fault, t) => (.error fault, (closed, t))
  | (.ok (), t) => (.ok (), (closed, if count = 0 then t else b.dropped count t))

/-- The block around a unit is left, with a fault or without: an open unit is committed or
rolled back.  A fault of the block itself goes on unless the rollback brings a new one. -/
def leave (b : Backend κ σ) (body : Except Fault Unit) (s : UnitOfWork κ × σ) :
    Except Fault Unit × (UnitOfWork κ × σ) :=
  if s.1.finished then (body, s)
  else
    match body with
    | .ok () => commit b s
    | .error fault =>
      match rollback b s with
      | (.ok (), s) => (.error fault, s)
      | (.error other, s) => (.error other, s)

end UnitOfWork

end DeliveryLedger
