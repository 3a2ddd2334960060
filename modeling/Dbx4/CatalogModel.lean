import Std.Data.ExtTreeMap
import Mathlib.Tactic.Common

/-!
`SchemaManager` of `storage_engine_production.cpp`: the tables, with their columns, indexes and
constraints.
-/

namespace Dbx4.CatalogModel

open Std

inductive DataType
  | UNKNOWN | INT8 | INT16 | INT32 | INT64 | UINT8 | UINT16 | UINT32 | UINT64 | FLOAT | DOUBLE
  | DECIMAL | VARCHAR | CHAR | DATE | TIME | TIMESTAMP | BLOB | BOOLEAN
  deriving DecidableEq

inductive ConstraintType
  | NONE | PRIMARY_KEY | UNIQUE | FOREIGN_KEY | CHECK | NOT_NULL | DEFAULT
  deriving DecidableEq

structure ColumnDef where
  name : String
  type : DataType
  size : UInt16
  nullable : Bool
  defaultValue : String
  constraints : List ConstraintType

structure TableSchema where
  tableName : String
  columns : List ColumnDef
  primaryKeys : List String
  indexes : ExtTreeMap String (List String)
  tableId : UInt32
  rowCount : UInt64

structure Index where
  indexName : String
  columns : List String
  indexData : ExtTreeMap String (List UInt64) := ∅
  isUnique : Bool
  isPrimary : Bool

structure Constraint where
  constraintName : String
  type : ConstraintType
  columns : List String
  expression : String
  referencedTable : String

structure SchemaManager where
  schemas : ExtTreeMap String TableSchema := ∅
  indexes : ExtTreeMap String (List Index) := ∅
  constraints : ExtTreeMap String (List Constraint) := ∅
  nextTableId : UInt32 := 1

/-- The two loops over the columns and their constraints: a column comes once for each time
that it is declared a key. -/
def primaryKeysOf (columns : List ColumnDef) : List String :=
  columns.flatMap fun col =>
    (col.constraints.filter (· = .PRIMARY_KEY)).map fun _ => col.name

namespace SchemaManager

def createTable (m : SchemaManager) (tableName : String) (columns : List ColumnDef) :
    Bool × SchemaManager :=
  match m.schemas[tableName]? with
  | some _ => (false, m)
  | none =>
    let schema : TableSchema :=
      { tableName, columns, primaryKeys := primaryKeysOf columns, indexes := ∅,
        tableId := m.nextTableId, rowCount := 0 }
    (true, { m with
      schemas := m.schemas.insert tableName schema, nextTableId := m.nextTableId + 1 })

def addIndex (m : SchemaManager) (tableName indexName : String) (columns : List String)
    (isUnique : Bool) : Bool × SchemaManager :=
  match m.schemas[tableName]? with
  | none => (false, m)
  | some schema =>
    let idx : Index := { indexName, columns, isUnique, isPrimary := false }
    (true, { m with
      indexes := m.indexes.insert tableName (m.indexes[tableName]?.getD [] ++ [idx])
      schemas := m.schemas.insert tableName
        { schema with indexes := schema.indexes.insert indexName columns } })

def addConstraint (m : SchemaManager) (tableName : String) (constraint : Constraint) :
    Bool × SchemaManager :=
  match m.schemas[tableName]? with
  | none => (false, m)
  | some _ =>
    (true, { m with
      constraints := m.constraints.insert tableName
        (m.constraints[tableName]?.getD [] ++ [constraint]) })

def getSchema (m : SchemaManager) (tableName : String) : Option TableSchema :=
  m.schemas[tableName]?

end SchemaManager

/-! ### Calls -/

inductive Call
  | createTable (tableName : String) (columns : List ColumnDef)
  | addIndex (tableName indexName : String) (columns : List String) (isUnique : Bool)
  | addConstraint (tableName : String) (constraint : Constraint)

/-- The answer to a call, and the catalog behind it. -/
def call (m : SchemaManager) : Call → Bool × SchemaManager
  | .createTable tableName columns => m.createTable tableName columns
  | .addIndex tableName indexName columns isUnique =>
    m.addIndex tableName indexName columns isUnique
  | .addConstraint tableName constraint => m.addConstraint tableName constraint

def step (m : SchemaManager) (c : Call) : SchemaManager := (call m c).2

end Dbx4.CatalogModel
