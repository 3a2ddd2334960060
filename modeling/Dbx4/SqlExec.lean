import Std.Data.ExtTreeSet
import Dbx4.ForEach
import Dbx4.Maps
import Dbx4.Runs
import Dbx4.SqlEval

/-!
The statements of `QueryExecutor::execute` on the tables of a database.

A statement that throws leaves behind what its loop has done to the rows so far: inserted
rows stay, an updated row stays as the assignments left it, and `std::remove_if` leaves the
rows it has moved.
-/

namespace Dbx4.SqlExec

open Std Dbx4.ForEach Dbx4.Maps Dbx4.Runs Dbx4.SqlAst Dbx4.SqlValue Dbx4.SqlEval

variable {D : Type}

structure TableSchema where
  name : String
  columns : List ColumnDef
  columnIndex : ExtTreeMap String ℕ := ∅
  primaryKeys : ExtTreeSet String := ∅
  uniqueColumns : ExtTreeSet String := ∅
  notNullColumns : ExtTreeSet String := ∅

structure Table (D : Type) where
  schema : TableSchema
  rows : List (Row D) := []

structure Database (D : Type) where
  tables : ExtTreeMap String (Table D) := ∅

structure QueryResult (D : Type) where
  columnNames : List String := []
  rows : List (Row D) := []
  rowsAffected : Int32 := 0
  success : Bool := false
  errorMessage : String := ""

namespace Database

def getTable (db : Database D) (name : String) : Except Throw (Table D) :=
  match db.tables[name]? with
  | some table => .ok table
  | none => .error (.storage ("Table '" ++ name ++ "' does not exist"))

def setRows (db : Database D) (name : String) (rows : List (Row D)) : Database D :=
  { db with tables := db.tables.modify name fun table => { table with rows := rows } }

end Database

lemma Database.getTable_eq_ok {db : Database D} {name : String} {table : Table D} :
    db.getTable name = .ok table ↔ db.tables[name]? = some table := by
  unfold Database.getTable
  rcases db.tables[name]? with _ | table' <;> simp

lemma Database.getElem?_setRows (db : Database D) (name name' : String) (rows : List (Row D)) :
    (db.setRows name rows).tables[name']? =
      if name = name' then db.tables[name']?.map fun table => { table with rows := rows }
      else db.tables[name']? :=
  getElem?_modify _ _ _ _

/-- Setting the rows of a table leaves a database as it is only if they are the table's. -/
lemma Database.setRows_eq_iff {db : Database D} {name : String} {table : Table D}
    (h : db.tables[name]? = some table) (rows : List (Row D)) :
    db.setRows name rows = db ↔ rows = table.rows := by
  refine ⟨fun he => ?_, fun he => ?_⟩
  · have hget := db.getElem?_setRows name name rows
    rw [he, if_pos rfl, h] at hget
    exact (congrArg Table.rows (Option.some.inj hget)).symm
  · have htables : (db.setRows name rows).tables = db.tables := by
      ext name' : 1
      rw [getElem?_setRows]
      split_ifs with hname
      · subst hname
        rw [h, he]
        rfl
      · rfl
    cases db
    exact congrArg Database.mk htables

lemma Database.setRows_inj {db : Database D} {name : String} {table : Table D}
    (h : db.tables[name]? = some table) {rows rows' : List (Row D)} :
    db.setRows name rows = db.setRows name rows' ↔ rows = rows' := by
  refine ⟨fun he => ?_, congrArg (db.setRows name)⟩
  have hget := congrArg (fun db : Database D => db.tables[name]?) he
  simp only [getElem?_setRows, if_pos, h, Option.map_some, Option.some.injEq] at hget
  exact congrArg Table.rows hget

/-- What holds of the table of a statement, when there is one. -/
def Database.OnTable (db : Database D) (name : String) (Q : Table D → Prop) : Prop :=
  name ≠ "" → ∀ table, db.tables[name]? = some table → Q table

lemma Database.onTable_cases (db : Database D) (name : String) :
    (name = "" ∨ db.tables[name]? = none) ∨
      ∃ table, name ≠ "" ∧ db.tables[name]? = some table := by
  by_cases hname : name = ""
  · exact Or.inl (Or.inl hname)
  · rcases htable : db.tables[name]? with _ | table
    · exact Or.inl (Or.inr rfl)
    · exact Or.inr ⟨table, hname, rfl⟩

lemma Database.onTable_of_none {db : Database D} {name : String} {Q : Table D → Prop}
    (h : name = "" ∨ db.tables[name]? = none) : db.OnTable name Q := by
  intro hname table htable
  rw [h.resolve_left hname] at htable
  cases htable

lemma Database.onTable_iff {db : Database D} {name : String} {Q : Table D → Prop}
    {table : Table D} (hname : name ≠ "") (htable : db.tables[name]? = some table) :
    db.OnTable name Q ↔ Q table := by
  refine ⟨fun h => h hname table htable, fun hQ _ table' htable' => ?_⟩
  rw [htable] at htable'
  cases htable'
  exact hQ

lemma Database.onTable_congr {db : Database D} {name : String} {Q R : Table D → Prop}
    (h : ∀ table, db.tables[name]? = some table → (Q table ↔ R table)) :
    db.OnTable name Q ↔ db.OnTable name R :=
  forall_congr' fun _ => forall_congr' fun table => forall_congr' fun htable => h table htable

/-! ### CREATE TABLE -/

/-- The schema of a new table, one column after the other. -/
def TableSchema.ofColumns (name : String) (columns : List ColumnDef) : TableSchema :=
  columns.zipIdx.foldl (fun schema (col, i) => { schema with
      columnIndex := schema.columnIndex.insert col.name i
      primaryKeys :=
        if col.primaryKey then schema.primaryKeys.insert col.name else schema.primaryKeys
      uniqueColumns :=
        if col.unique then schema.uniqueColumns.insert col.name else schema.uniqueColumns
      notNullColumns :=
        if col.notNull then schema.notNullColumns.insert col.name else schema.notNullColumns })
    { name := name, columns := columns }

def Database.createTable (db : Database D) (name : String) (columns : List ColumnDef) :
    Except Throw (Database D) := do
  if name ∈ db.tables then throw (.storage ("Table '" ++ name ++ "' already exists"))
  if columns = [] then throw (.sqlValidation "Table must have at least one column")
  return { db with tables := db.tables.insert name { schema := .ofColumns name columns } }

def executeCreateTable (db : Database D) (stmt : CreateTableStmt) :
    Except Throw (QueryResult D) × Database D :=
  if stmt.tableName = "" then (.error (.sqlValidation "Table name cannot be empty"), db)
  else if stmt.columns = [] then
    (.error (.sqlValidation "Table must have at least one column"), db)
  else
    match db.createTable stmt.tableName stmt.columns with
    | .error e => (.error e, db)
    | .ok db => (.ok { success := true, rowsAffected := 0 }, db)

/-- `CREATE TABLE` throws, or adds an empty table with at least one column. -/
lemma executeCreateTable_cases (db : Database D) (stmt : CreateTableStmt) :
    (∃ e, executeCreateTable db stmt = (.error e, db)) ∨
      stmt.columns ≠ [] ∧
        executeCreateTable db stmt = (.ok { success := true }, { db with
          tables := db.tables.insert stmt.tableName
            { schema := .ofColumns stmt.tableName stmt.columns } }) := by
  unfold executeCreateTable
  split_ifs with hname hcolumns
  · exact Or.inl ⟨_, rfl⟩
  · exact Or.inl ⟨_, rfl⟩
  · rw [Database.createTable, if_neg hcolumns]
    by_cases hmem : stmt.tableName ∈ db.tables
    · rw [if_pos hmem]
      exact Or.inl ⟨_, rfl⟩
    · rw [if_neg hmem]
      exact Or.inr ⟨hcolumns, rfl⟩

/-- What a statement with a loop ends with. -/
def outcome (thrown : Option Throw) (result : QueryResult D) : Except Throw (QueryResult D) :=
  match thrown with
  | some e => .error e
  | none => .ok result

variable [Doubles D]

/-! ### Checks -/

def validateColumnExists (colName : String) (schema : TableSchema) : Except Throw Unit :=
  if colName ∈ schema.columnIndex then .ok ()
  else .error (.sqlValidation
    ("Column '" ++ colName ++ "' does not exist in table '" ++ schema.name ++ "'"))

/-- The values two rows have in a column are both there, neither is null, and their texts are
the same. -/
def clash (colName : String) (row existingRow : Row D) : Bool :=
  match row[colName]?, existingRow[colName]? with
  | some val, some existingVal =>
    !val.isNull && !existingVal.isNull && val.toString = existingVal.toString
  | _, _ => false

def isNullAt (row : Row D) (colName : String) : Bool :=
  match row[colName]? with
  | some val => val.isNull
  | none => false

/-- `rows` are those of the table, a row that is being updated among them. -/
def validateRow (row : Row D) (schema : TableSchema) (rows : List (Row D)) :
    Except Throw Unit :=
  match schema.notNullColumns.toList.find? fun colName => isNullAt row colName with
  | some colName => .error (.notNull colName)
  | none =>
    match schema.uniqueColumns.toList.find? fun colName =>
        rows.any fun existingRow => clash colName row existingRow with
    | some colName => .error (.uniqueConstraint colName)
    | none => .ok ()

/-! ### INSERT -/

/-- The value an `INSERT` stores for one of its expressions. -/
def insertedValue : Expression → Except Throw (Value D)
  | .literal value type =>
    convertToType (.string value) (if type = .STRING then .VARCHAR else type)
  | _ => .error (.sqlValidation "Only literal values supported in INSERT")

def countMismatch (expected got : ℕ) : Throw :=
  .sqlValidation ("Column count mismatch: expected " ++ expected.repr ++ ", got " ++ got.repr)

/-- The value of a column the statement does not list. -/
def addDefault (row : Row D) (col : ColumnDef) : Except Throw (Row D) := do
  if col.name ∈ row then return row
  else if col.defaultValue ≠ "" then
    return row.insert col.name (← convertToType (.string col.defaultValue) col.type)
  else if !col.notNull then return row.insert col.name .null
  else throw (.notNull col.name)

def buildRow (stmt : InsertStmt) (schema : TableSchema) (valueRow : List Expression) :
    Except Throw (Row D) :=
  if stmt.columns ≠ [] then do
    if valueRow.length ≠ stmt.columns.length then
      throw (countMismatch stmt.columns.length valueRow.length)
    let newRow ← (stmt.columns.zip valueRow).foldlM (fun newRow (colName, expr) => do
      validateColumnExists colName schema
      return newRow.insert colName (← insertedValue expr)) ∅
    schema.columns.foldlM addDefault newRow
  else do
    if valueRow.length ≠ schema.columns.length then
      throw (countMismatch schema.columns.length valueRow.length)
    (schema.columns.zip valueRow).foldlM (fun newRow (col, expr) => do
      return newRow.insert col.name (← insertedValue expr)) ∅

/-- The row of one list of values, checked against the rows of the table. -/
def acceptRow (stmt : InsertStmt) (schema : TableSchema) (rows : List (Row D))
    (valueRow : List Expression) : Except Throw (Row D) := do
  let newRow ← buildRow stmt schema valueRow
  validateRow newRow schema rows
  return newRow

lemma acceptRow_ok {stmt : InsertStmt} {schema : TableSchema} {rows : List (Row D)}
    {valueRow : List Expression} {newRow : Row D}
    (h : acceptRow stmt schema rows valueRow = .ok newRow) :
    validateRow newRow schema rows = .ok () := by
  obtain ⟨row, -, h⟩ := bind_eq_ok.mp h
  obtain ⟨_, hvalid, h⟩ := bind_eq_ok.mp h
  cases h
  exact hvalid

/-- One turn of `INSERT`, on the rows of the table and the number of rows inserted. -/
def insertTurn (stmt : InsertStmt) (schema : TableSchema) (s : List (Row D) × ℕ)
    (valueRow : List Expression) (_ : List (List Expression)) :
    Option Throw × (List (Row D) × ℕ) :=
  let (rows, rowsInserted) := s
  match acceptRow stmt schema rows valueRow with
  | .ok newRow => (none, (rows ++ [newRow], rowsInserted + 1))
  | .error e => (some e, (rows, rowsInserted))

lemma insertTurn_ok {stmt : InsertStmt} {schema : TableSchema} {s s' : List (Row D) × ℕ}
    {valueRow : List Expression} {rest : List (List Expression)}
    (h : insertTurn stmt schema s valueRow rest = (none, s')) :
    ∃ newRow, acceptRow stmt schema s.1 valueRow = .ok newRow ∧
      s' = (s.1 ++ [newRow], s.2 + 1) := by
  unfold insertTurn at h
  dsimp only at h
  split at h
  case h_1 newRow hrow =>
    cases h
    exact ⟨newRow, hrow, rfl⟩
  case h_2 => cases h

lemma insertTurn_throw {stmt : InsertStmt} {schema : TableSchema} {s s' : List (Row D) × ℕ}
    {valueRow : List Expression} {rest : List (List Expression)} {e : Throw}
    (h : insertTurn stmt schema s valueRow rest = (some e, s')) : s' = s := by
  unfold insertTurn at h
  dsimp only at h
  split at h <;> cases h
  rfl

def executeInsert (db : Database D) (stmt : InsertStmt) :
    Except Throw (QueryResult D) × Database D :=
  if stmt.tableName = "" then (.error (.sqlValidation "Table name cannot be empty"), db)
  else
    match db.getTable stmt.tableName with
    | .error e => (.error e, db)
    | .ok table =>
      let left := forEach (insertTurn stmt table.schema) (table.rows, 0) stmt.values
      let (rows, rowsInserted) := left.state
      (outcome left.thrown { success := true, rowsAffected := Int32.ofNat rowsInserted },
        db.setRows stmt.tableName rows)

/-! ### UPDATE and DELETE -/

/-- One assignment, on the row. -/
def assignTurn (schema : TableSchema) (row : Row D) (assignment : String × Expression)
    (_ : List (String × Expression)) : Option Throw × Row D :=
  let (colName, valueExpr) := assignment
  match validateColumnExists colName schema with
  | .error e => (some e, row)
  | .ok () =>
    match evaluateExpression valueExpr row with
    | .error e => (some e, row)
    | .ok newVal => (none, row.insert colName newVal)

/-- One turn of `UPDATE`, on the rows before the current one and the number of rows updated. -/
def updateTurn (stmt : UpdateStmt) (schema : TableSchema) (s : List (Row D) × ℕ) (row : Row D)
    (after : List (Row D)) : Option Throw × (List (Row D) × ℕ) :=
  let (before, rowsUpdated) := s
  match selects stmt.whereClause row with
  | .error e => (some e, (before ++ [row], rowsUpdated))
  | .ok false => (none, (before ++ [row], rowsUpdated))
  | .ok true =>
    let assigned := forEach (assignTurn schema) row stmt.assignments
    match assigned.thrown with
    | some e => (some e, (before ++ [assigned.state], rowsUpdated))
    | none =>
      match validateRow assigned.state schema (before ++ assigned.state :: after) with
      | .error e => (some e, (before ++ [assigned.state], rowsUpdated))
      | .ok () => (none, (before ++ [assigned.state], rowsUpdated + 1))

/-- The row as a turn leaves it: as the assignments do, up to one that throws. -/
def settled (stmt : UpdateStmt) (schema : TableSchema) (row : Row D) : Row D :=
  match selects stmt.whereClause row with
  | .ok true => (forEach (assignTurn schema) row stmt.assignments).state
  | _ => row

lemma updateTurn_rows (stmt : UpdateStmt) (schema : TableSchema) (s : List (Row D) × ℕ)
    (row : Row D) (after : List (Row D)) :
    (updateTurn stmt schema s row after).2.1 = s.1 ++ [settled stmt schema row] := by
  unfold updateTurn settled
  rcases selects stmt.whereClause row with e | _ | _
  · rfl
  · rfl
  · dsimp only
    split
    · rfl
    · split <;> rfl

/-- A turn that does not throw leaves the row alone, or has checked it. -/
lemma updateTurn_ok {stmt : UpdateStmt} {schema : TableSchema} {s s' : List (Row D) × ℕ}
    {row : Row D} {after : List (Row D)}
    (h : updateTurn stmt schema s row after = (none, s')) :
    settled stmt schema row = row ∨
      validateRow (settled stmt schema row) schema
        (s.1 ++ settled stmt schema row :: after) = .ok () := by
  unfold updateTurn at h
  unfold settled
  rcases hsel : selects stmt.whereClause row with e | _ | _
  · exact Or.inl rfl
  · exact Or.inl rfl
  · refine Or.inr ?_
    rw [hsel] at h
    dsimp only at h ⊢
    split at h
    · cases h
    · split at h
      · cases h
      · assumption

def executeUpdate (db : Database D) (stmt : UpdateStmt) :
    Except Throw (QueryResult D) × Database D :=
  if stmt.tableName = "" then (.error (.sqlValidation "Table name cannot be empty"), db)
  else
    match db.getTable stmt.tableName with
    | .error e => (.error e, db)
    | .ok table =>
      let left := forEach (updateTurn stmt table.schema) ([], 0) table.rows
      let (rows, rowsUpdated) := left.state
      (outcome left.thrown { success := true, rowsAffected := Int32.ofNat rowsUpdated },
        db.setRows stmt.tableName (rows ++ left.unvisited))

/-- One turn of `std::remove_if`, on the rows kept so far and the positions behind them, up to
the current row. A row is kept by moving it to the first of these positions, which leaves an
empty map at its own. -/
def removeTurn (whereClause : Option Expression) (s : List (Row D) × List (Row D)) (row : Row D)
    (_ : List (Row D)) : Option Throw × (List (Row D) × List (Row D)) :=
  let (kept, gap) := s
  match selects whereClause row with
  | .error e => (some e, (kept, gap ++ [row]))
  | .ok true => (none, (kept, gap ++ [row]))
  | .ok false =>
    match gap with
    | [] => (none, (kept ++ [row], []))
    | _ :: gap => (none, (kept ++ [row], gap ++ [∅]))

lemma removeTurn_ok {whereClause : Option Expression} {kept gap : List (Row D)}
    {s' : List (Row D) × List (Row D)} {row : Row D} {rest : List (Row D)}
    (h : removeTurn whereClause (kept, gap) row rest = (none, s')) :
    (selects whereClause row = .ok true ∧ s' = (kept, gap ++ [row])) ∨
      (selects whereClause row = .ok false ∧
        ((gap = [] ∧ s' = (kept ++ [row], [])) ∨
          ∃ r rs, gap = r :: rs ∧ s' = (kept ++ [row], rs ++ [∅]))) := by
  unfold removeTurn at h
  rcases hsel : selects whereClause row with e | _ | _ <;> rw [hsel] at h
  · cases h
  · rcases gap with _ | ⟨r, rs⟩ <;> cases h
    · exact Or.inr ⟨rfl, Or.inl ⟨rfl, rfl⟩⟩
    · exact Or.inr ⟨rfl, Or.inr ⟨r, rs, rfl, rfl⟩⟩
  · cases h
    exact Or.inl ⟨rfl, rfl⟩

lemma removeTurn_throw {whereClause : Option Expression} {kept gap : List (Row D)}
    {s' : List (Row D) × List (Row D)} {row : Row D} {rest : List (Row D)} {e : Throw}
    (h : removeTurn whereClause (kept, gap) row rest = (some e, s')) :
    s' = (kept, gap ++ [row]) := by
  unfold removeTurn at h
  rcases hsel : selects whereClause row with e | _ | _ <;> rw [hsel] at h
  · cases h
    rfl
  · rcases gap with _ | ⟨r, rs⟩ <;> cases h
  · cases h

def executeDelete (db : Database D) (stmt : DeleteStmt) :
    Except Throw (QueryResult D) × Database D :=
  if stmt.tableName = "" then (.error (.sqlValidation "Table name cannot be empty"), db)
  else
    match db.getTable stmt.tableName with
    | .error e => (.error e, db)
    | .ok table =>
      let left := forEach (removeTurn stmt.whereClause) ([], []) table.rows
      let (kept, gap) := left.state
      -- without an exception the rows behind the kept ones are erased
      let rows := if left.thrown.isSome then kept ++ gap ++ left.unvisited else kept
      (outcome left.thrown { success := true, rowsAffected := Int32.ofNat gap.length },
        db.setRows stmt.tableName rows)

/-! ### SELECT -/

def selectColumns (schema : TableSchema) : List Expression → Except Throw (List String)
  | [.identifier name] =>
    if name = "*" then .ok (schema.columns.map ColumnDef.name)
    else do
      validateColumnExists name schema
      return [name]
  | [_] => .ok []
  | columns => columns.foldlM (fun selected column =>
      match column with
      | .identifier name => do
        validateColumnExists name schema
        return selected ++ [name]
      | _ => return selected) []

def project (columns : List String) (row : Row D) : Row D :=
  columns.foldl (fun result colName =>
    match row[colName]? with
    | some value => result.insert colName value
    | none => result) ∅

/-- None where the page reads outside the rows. -/
def executeSelect (db : Database D) (stmt : SelectStatement) :
    Except Throw (Option (QueryResult D)) := do
  if stmt.tableName = "" then throw (.sqlValidation "SELECT requires FROM clause")
  let table ← db.getTable stmt.tableName
  let columns ← selectColumns table.schema stmt.columns
  let filtered ← table.rows.filterM (selects stmt.whereClause)
  let sorted ←
    if stmt.orderBy = [] then pure filtered
    else
      let check := fun colName => validateColumnExists colName table.schema
      sortRows (goesBefore check stmt.orderBy) filtered
  return (page stmt.limit stmt.offset sorted).map fun rows =>
    { columnNames := columns
      rows := rows.map (project columns)
      rowsAffected := Int32.ofNat rows.length
      success := true }

/-! ### Statements -/

def caught : Except Throw (QueryResult D) → QueryResult D
  | .ok result => result
  | .error e => { success := false, errorMessage := e.message }

/-- The result, none where the behaviour is undefined, and the database. -/
def execute (db : Database D) : Statement → Option (QueryResult D) × Database D
  | .createTable stmt =>
    let (result, db) := executeCreateTable db stmt
    (some (caught result), db)
  | .insert stmt =>
    let (result, db) := executeInsert db stmt
    (some (caught result), db)
  | .select stmt =>
    match executeSelect db stmt with
    | .ok result => (result, db)
    | .error e => (some (caught (.error e)), db)
  | .update stmt =>
    let (result, db) := executeUpdate db stmt
    (some (caught result), db)
  | .delete stmt =>
    let (result, db) := executeDelete db stmt
    (some (caught result), db)
  | .other => (some (caught (.error (.sqlValidation "Unknown statement type"))), db)

/-! ### One statement -/

lemma execute_insert {db : Database D} {stmt : InsertStmt} {table : Table D}
    (hname : stmt.tableName ≠ "") (htable : db.tables[stmt.tableName]? = some table) :
    let left := forEach (insertTurn stmt table.schema) (table.rows, 0) stmt.values
    execute db (.insert stmt) =
      (some (caught (outcome left.thrown
        { success := true, rowsAffected := Int32.ofNat left.state.2 })),
      db.setRows stmt.tableName left.state.1) := by
  simp only [execute, executeInsert, if_neg hname, Database.getTable_eq_ok.mpr htable]

lemma execute_update {db : Database D} {stmt : UpdateStmt} {table : Table D}
    (hname : stmt.tableName ≠ "") (htable : db.tables[stmt.tableName]? = some table) :
    let left := forEach (updateTurn stmt table.schema) ([], 0) table.rows
    execute db (.update stmt) =
      (some (caught (outcome left.thrown
        { success := true, rowsAffected := Int32.ofNat left.state.2 })),
      db.setRows stmt.tableName (left.state.1 ++ left.unvisited)) := by
  simp only [execute, executeUpdate, if_neg hname, Database.getTable_eq_ok.mpr htable]

lemma execute_delete {db : Database D} {stmt : DeleteStmt} {table : Table D}
    (hname : stmt.tableName ≠ "") (htable : db.tables[stmt.tableName]? = some table) :
    let left := forEach (removeTurn stmt.whereClause) ([], []) table.rows
    execute db (.delete stmt) =
      (some (caught (outcome left.thrown
        { success := true, rowsAffected := Int32.ofNat left.state.2.length })),
      db.setRows stmt.tableName (if left.thrown.isSome
        then left.state.1 ++ left.state.2 ++ left.unvisited else left.state.1)) := by
  simp only [execute, executeDelete, if_neg hname, Database.getTable_eq_ok.mpr htable]

/-- The rows of a `SELECT` in their order. -/
def ordered (schema : TableSchema) (orderBy : List (String × Bool)) (rows : List (Row D)) :
    Except Throw (List (Row D)) :=
  if orderBy = [] then pure rows
  else sortRows (goesBefore (fun colName => validateColumnExists colName schema) orderBy) rows

lemma executeSelect_of_table {db : Database D} {stmt : SelectStatement} {table : Table D}
    (hname : stmt.tableName ≠ "") (htable : db.tables[stmt.tableName]? = some table) :
    executeSelect db stmt = do
      let columns ← selectColumns table.schema stmt.columns
      let filtered ← table.rows.filterM (selects stmt.whereClause)
      let sorted ← ordered table.schema stmt.orderBy filtered
      return (page stmt.limit stmt.offset sorted).map fun rows =>
        { columnNames := columns
          rows := rows.map (project columns)
          rowsAffected := Int32.ofNat rows.length
          success := true } := by
  unfold executeSelect ordered
  rw [if_neg hname, Database.getTable_eq_ok.mpr htable]
  by_cases horder : stmt.orderBy = []
  · simp only [if_pos horder]
    rfl
  · simp only [if_neg horder]
    rfl

lemma executeSelect_of_eq_empty {db : Database D} {stmt : SelectStatement}
    (hname : stmt.tableName = "") :
    executeSelect db stmt = .error (.sqlValidation "SELECT requires FROM clause") := by
  rw [executeSelect, if_pos hname]
  rfl

lemma execute_insert_of_none {db : Database D} {stmt : InsertStmt}
    (h : stmt.tableName = "" ∨ db.tables[stmt.tableName]? = none) :
    (execute db (.insert stmt)).2 = db := by
  simp only [execute, executeInsert, Database.getTable]
  split_ifs with hname
  · rfl
  · rw [h.resolve_left hname]

lemma execute_update_of_none {db : Database D} {stmt : UpdateStmt}
    (h : stmt.tableName = "" ∨ db.tables[stmt.tableName]? = none) :
    (execute db (.update stmt)).2 = db := by
  simp only [execute, executeUpdate, Database.getTable]
  split_ifs with hname
  · rfl
  · rw [h.resolve_left hname]

lemma execute_delete_of_none {db : Database D} {stmt : DeleteStmt}
    (h : stmt.tableName = "" ∨ db.tables[stmt.tableName]? = none) :
    (execute db (.delete stmt)).2 = db := by
  simp only [execute, executeDelete, Database.getTable]
  split_ifs with hname
  · rfl
  · rw [h.resolve_left hname]

lemma execute_select (db : Database D) (stmt : SelectStatement) :
    (execute db (.select stmt)).2 = db := by
  simp only [execute]
  split <;> rfl

end Dbx4.SqlExec
