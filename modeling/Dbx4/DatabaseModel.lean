import Dbx4.CatalogModel
import Dbx4.EngineEvict

/-!
`DatabaseEngine` of `storage_engine_production.cpp`: a catalog and a buffer pool. A table has
one page, the one with its number.
-/

namespace Dbx4.DatabaseModel

open Dbx4.Memory Dbx4.Word32 Dbx4.CatalogModel Dbx4.EngineModel Dbx4.EnginePoolModel
  Dbx4.EngineEvict
open Dbx4.StorageModel (Row)

inductive EngineFault
  | pool (fault : PoolFault)
  | page (fault : Fault)

/-- `Row::data` as it is passed to a page: its length is cut to 16 bits. -/
def passed (data : Bytes) : Row :=
  ⟨data.take (data.length % 2 ^ 16), by
    rw [List.length_take]
    have hlt := Nat.mod_lt data.length (Nat.two_pow_pos 16)
    omega⟩

structure DatabaseEngine where
  schemaManager : SchemaManager
  bufferPool : BufferPool
  totalRowsInserted : UInt64
  totalRowsUpdated : UInt64
  totalRowsDeleted : UInt64

namespace DatabaseEngine

def new (bufferPoolMb : UInt64) : DatabaseEngine :=
  { schemaManager := {}, bufferPool := .new bufferPoolMb, totalRowsInserted := 0,
    totalRowsUpdated := 0, totalRowsDeleted := 0 }

def createTable (db : DatabaseEngine) (tableName : String) (columns : List ColumnDef) :
    Bool × DatabaseEngine :=
  let (created, schemaManager) := db.schemaManager.createTable tableName columns
  (created, { db with schemaManager })

/-- `clock` is what the pool reads, and `now` what the page does. -/
def insertRow (mutex : Mutex) (listing : Listing) (clock : Clock) (now : UInt32)
    (db : DatabaseEngine) (tableName : String) (data : Bytes) :
    Except EngineFault (Bool × DatabaseEngine) :=
  match db.schemaManager.getSchema tableName with
  | none => .ok (false, db)
  | some schema => do
    let (page, pool) ←
      (db.bufferPool.getPage mutex listing clock schema.tableId).mapError EngineFault.pool
    let (slot, page) ← (page.insertRow (passed data) 1 now).mapError EngineFault.page
    -- the page is the pool's own, as long as the pool holds it
    let db := { db with bufferPool := changePage pool page }
    match slot with
    | none => return (false, db)
    | some _ => return (true, { db with totalRowsInserted := db.totalRowsInserted + 1 })

def updateRow (db : DatabaseEngine) (_tableName : String) (_rowId : UInt64) (_newRow : Bytes) :
    Bool × DatabaseEngine :=
  (true, { db with totalRowsUpdated := db.totalRowsUpdated + 1 })

def deleteRow (db : DatabaseEngine) (_tableName : String) (_rowId : UInt64) :
    Bool × DatabaseEngine :=
  (true, { db with totalRowsDeleted := db.totalRowsDeleted + 1 })

end DatabaseEngine

/-! ### Calls -/

inductive Call
  | createTable (tableName : String) (columns : List ColumnDef)
  | insertRow (tableName : String) (data : Bytes) (clock : Clock) (now : UInt32)
      (listing : Listing)
  | updateRow (tableName : String) (rowId : UInt64) (newRow : Bytes)
  | deleteRow (tableName : String) (rowId : UInt64)

def step (db : DatabaseEngine) : Call → Except EngineFault (Bool × DatabaseEngine)
  | .createTable tableName columns => .ok (db.createTable tableName columns)
  | .insertRow tableName data clock now listing =>
    db.insertRow sharedMutex listing clock now tableName data
  | .updateRow tableName rowId newRow => .ok (db.updateRow tableName rowId newRow)
  | .deleteRow tableName rowId => .ok (db.deleteRow tableName rowId)

end Dbx4.DatabaseModel
