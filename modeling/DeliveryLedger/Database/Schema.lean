import DeliveryLedger.Decimal.Digits
/-!
The schema of the database: tables with columns and indexes, and the migration that makes and
removes them.  A migration that was applied before changes nothing.
-/

namespace DeliveryLedger.Database

inductive ColumnType where
  /-- Text of a limited length. -/
  | varchar (limit : Nat)
  | text
  | dateTime
deriving DecidableEq, Repr

/-- The type in the words of the database. -/
def ColumnType.spelling : ColumnType → String
  | .varchar limit => "VARCHAR(" ++ Decimal.natText limit ++ ")"
  | .text => "TEXT"
  | .dateTime => "DATETIME"

structure Column where
  name : String
  type : ColumnType
  nullable : Bool
  primaryKey : Bool
deriving DecidableEq, Repr

structure Index where
  name : String
  columns : List String
deriving DecidableEq, Repr

structure TableSchema where
  name : String
  columns : List Column
  indexes : List Index
deriving DecidableEq, Repr

namespace Schema

def required (name : String) (type : ColumnType) : Column := ⟨name, type, false, false⟩

/-- The table of publications, one row for each occurrence and handler. -/
def publications : TableSchema :=
  { name := "event_publications"
    columns :=
      [⟨"id", .varchar 36, false, true⟩,
       required "handler_id" (.varchar 512),
       required "occurrence_type" (.varchar 512),
       required "occurrence_payload" .text,
       required "fingerprint" (.varchar 64),
       required "published_at" .dateTime,
       ⟨"completed_at", .dateTime, true, false⟩]
    indexes :=
      [⟨"idx_event_publications_completed_at", ["completed_at"]⟩,
       ⟨"idx_event_publications_fingerprint", ["fingerprint", "handler_id"]⟩,
       ⟨"idx_event_publications_published_at", ["published_at"]⟩] }

/-- The table that keeps the version of the schema. -/
def versions : TableSchema :=
  { name := "alembic_version"
    columns := [⟨"version_num", .varchar 32, false, true⟩]
    indexes := [] }

/-- The tables with one more, unless it is there. -/
def withTable (t : TableSchema) (tables : List TableSchema) : List TableSchema :=
  if tables.any (·.name = t.name) then tables else tables ++ [t]

/-- The tables made directly. -/
def create (tables : List TableSchema) : List TableSchema := withTable publications tables

/-- The tables after all migrations. -/
def upgrade (tables : List TableSchema) : List TableSchema :=
  withTable publications (withTable versions tables)

/-- The tables after all migrations were undone; their version is still kept. -/
def downgrade (tables : List TableSchema) : List TableSchema :=
  withTable versions (tables.filter (·.name ≠ publications.name))

/-- A step on the tables, repeated. -/
def times (step : List TableSchema → List TableSchema) : Nat → List TableSchema → List TableSchema
  | 0, tables => tables
  | n + 1, tables => times step n (step tables)

end Schema

end DeliveryLedger.Database
