import Dbx4.SqlConstraints

/-!
Schemas as `CREATE TABLE` makes them.

A schema is what its columns make it, and no statement changes it afterwards. So the tables of
a database that statements have led to have such schemas, each of at least one column.
-/

namespace Dbx4.SqlSchema

open Std Dbx4.Maps Dbx4.Runs Dbx4.SqlAst Dbx4.SqlValue Dbx4.SqlExec Dbx4.SqlConstraints

/-! ### The schema of a list of columns -/

/-- One column of a new table. -/
def addColumn (schema : TableSchema) (c : ColumnDef × ℕ) : TableSchema :=
  { schema with
    columnIndex := schema.columnIndex.insert c.1.name c.2
    primaryKeys :=
      if c.1.primaryKey then schema.primaryKeys.insert c.1.name else schema.primaryKeys
    uniqueColumns :=
      if c.1.unique then schema.uniqueColumns.insert c.1.name else schema.uniqueColumns
    notNullColumns :=
      if c.1.notNull then schema.notNullColumns.insert c.1.name else schema.notNullColumns }

lemma ofColumns_eq (name : String) (columns : List ColumnDef) :
    TableSchema.ofColumns name columns =
      columns.zipIdx.foldl addColumn { name := name, columns := columns } := rfl

lemma foldl_addColumn (cs : List (ColumnDef × ℕ)) (schema : TableSchema) :
    (cs.foldl addColumn schema).name = schema.name ∧
      (cs.foldl addColumn schema).columns = schema.columns := by
  induction cs generalizing schema with
  | nil => exact ⟨rfl, rfl⟩
  | cons c cs ih => exact ih (addColumn schema c)

/-- What one column adds to a set, all columns add. -/
lemma foldl_addColumn_iff {M : TableSchema → Prop} {Q : ColumnDef → Prop}
    (hM : ∀ schema c, M (addColumn schema c) ↔ Q c.1 ∨ M schema)
    (columns : List ColumnDef) (schema : TableSchema) :
    M (columns.zipIdx.foldl addColumn schema) ↔ (∃ col ∈ columns, Q col) ∨ M schema := by
  have hfold (cs : List (ColumnDef × ℕ)) (schema : TableSchema) :
      M (cs.foldl addColumn schema) ↔ (∃ col ∈ cs.map Prod.fst, Q col) ∨ M schema := by
    induction cs generalizing schema with
    | nil => simp
    | cons c cs ih =>
      rw [List.foldl_cons, ih, hM, List.map_cons, List.exists_mem_cons_iff, or_left_comm,
        or_assoc]
  rw [hfold, List.zipIdx_map_fst]

@[simp] lemma name_ofColumns (name : String) (columns : List ColumnDef) :
    (TableSchema.ofColumns name columns).name = name := (foldl_addColumn _ _).1

@[simp] lemma columns_ofColumns (name : String) (columns : List ColumnDef) :
    (TableSchema.ofColumns name columns).columns = columns := (foldl_addColumn _ _).2

lemma mem_columnIndex_ofColumns {name colName : String} {columns : List ColumnDef} :
    colName ∈ (TableSchema.ofColumns name columns).columnIndex ↔
      ∃ col ∈ columns, col.name = colName := by
  rw [ofColumns_eq, foldl_addColumn_iff (Q := fun col => col.name = colName)
    (M := fun schema => colName ∈ schema.columnIndex) fun schema c => mem_insert_iff _ _ _ _]
  simp

/-! ### The tables of a database -/

/-- A database with one table, which is empty. -/
def emptyTable (D : Type) (name : String) (schema : TableSchema) : Database D where
  tables := (∅ : ExtTreeMap String (Table D)).insert name { schema := schema }

variable {D : Type} [Doubles D]

/-- Every table has a column, and the schema that its columns make. -/
def FromColumns (db : Database D) : Prop :=
  ∀ (name : String) (table : Table D), db.tables[name]? = some table →
    table.schema.columns ≠ [] ∧ table.schema = .ofColumns name table.schema.columns

omit [Doubles D] in
lemma FromColumns.setRows {db : Database D} (h : FromColumns db) (name : String)
    (rows : List (SqlEval.Row D)) : FromColumns (db.setRows name rows) := by
  intro name' table' htable'
  rw [Database.getElem?_setRows] at htable'
  split_ifs at htable' with hname
  · obtain ⟨table, htable, rfl⟩ := Option.map_eq_some_iff.mp htable'
    exact h name' table htable
  · exact h name' table' htable'

lemma FromColumns.step {db : Database D} (h : FromColumns db) (stmt : Statement) :
    FromColumns (step db stmt) := by
  cases stmt with
  | createTable stmt =>
    rcases executeCreateTable_cases db stmt with ⟨e, he⟩ | ⟨hcolumns, he⟩
    · simpa [SqlConstraints.step, execute, he] using h
    · simp only [SqlConstraints.step, execute, he]
      intro name table htable
      rw [ExtTreeMap.getElem?_insert] at htable
      split_ifs at htable with hname
      · cases htable
        rw [LawfulEqOrd.eq_of_compare hname, columns_ofColumns]
        exact ⟨hcolumns, rfl⟩
      · exact h name table htable
  | insert stmt =>
    rcases db.onTable_cases stmt.tableName with hnone | ⟨table, hname, htable⟩
    · rwa [SqlConstraints.step, execute_insert_of_none hnone]
    · rw [SqlConstraints.step, execute_insert hname htable]
      exact h.setRows _ _
  | select stmt => rwa [SqlConstraints.step, execute_select]
  | update stmt =>
    rcases db.onTable_cases stmt.tableName with hnone | ⟨table, hname, htable⟩
    · rwa [SqlConstraints.step, execute_update_of_none hnone]
    · rw [SqlConstraints.step, execute_update hname htable]
      exact h.setRows _ _
  | delete stmt =>
    rcases db.onTable_cases stmt.tableName with hnone | ⟨table, hname, htable⟩
    · rwa [SqlConstraints.step, execute_delete_of_none hnone]
    · rw [SqlConstraints.step, execute_delete hname htable]
      exact h.setRows _ _
  | other => exact h

/-- **The schemas of every database that statements lead to**. -/
theorem fromColumns_run (stmts : List Statement) :
    FromColumns (run step ({} : Database D) stmts) := by
  have hempty : FromColumns ({} : Database D) := fun name table htable => by simp at htable
  have hstep : ∀ (db : Database D) stmt, FromColumns db → True → FromColumns (step db stmt) :=
    fun db stmt h _ => h.step stmt
  refine run_inv_along hstep hempty (along_iff.mpr ?_)
  simp

end Dbx4.SqlSchema
