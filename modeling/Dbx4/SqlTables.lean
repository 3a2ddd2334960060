import Dbx4.SqlConstraints

/-!
Tables do not interfere, and keep their columns.

A statement reads and writes the one table that it names. So whatever is done to other tables
in between, the statements on a table are answered, and leave it, as if it were the only one.
-/

namespace Dbx4.SqlTables

open Std Dbx4.Maps Dbx4.Runs Dbx4.SqlAst Dbx4.SqlValue Dbx4.SqlEval Dbx4.SqlExec
open Dbx4.SqlConstraints

/-- The table a statement names. -/
def named : Statement → Option String
  | .createTable stmt => some stmt.tableName
  | .insert stmt => some stmt.tableName
  | .select stmt => some stmt.tableName
  | .update stmt => some stmt.tableName
  | .delete stmt => some stmt.tableName
  | .other => none

def isOn (name : String) (stmt : Statement) : Bool := named stmt = some name

variable {D : Type} [Doubles D] {db db' : Database D} {name : String}

omit [Doubles D] in
lemma setRows_of_ne {name' : String} (h : name' ≠ name) (rows : List (Row D)) :
    (db.setRows name' rows).tables[name]? = db.tables[name]? := by
  rw [Database.getElem?_setRows, if_neg h]

/-- A statement leaves the tables alone that it does not name. -/
lemma tables_execute_of_other {stmt : Statement} (h : isOn name stmt = false) :
    (execute db stmt).2.tables[name]? = db.tables[name]? := by
  have hne : named stmt ≠ some name := of_decide_eq_false h
  cases stmt with
  | createTable stmt =>
    have hname : stmt.tableName ≠ name := fun he => hne (congrArg some he)
    rcases executeCreateTable_cases db stmt with ⟨e, he⟩ | ⟨-, he⟩
    · simp only [execute, he]
    · simp only [execute, he]
      exact getElem?_insert_of_ne _ hname _
  | insert stmt =>
    have hname : stmt.tableName ≠ name := fun he => hne (congrArg some he)
    rcases db.onTable_cases stmt.tableName with hnone | ⟨table, hsome, htable⟩
    · rw [execute_insert_of_none hnone]
    · rw [execute_insert hsome htable]
      exact setRows_of_ne hname _
  | select stmt => rw [execute_select]
  | update stmt =>
    have hname : stmt.tableName ≠ name := fun he => hne (congrArg some he)
    rcases db.onTable_cases stmt.tableName with hnone | ⟨table, hsome, htable⟩
    · rw [execute_update_of_none hnone]
    · rw [execute_update hsome htable]
      exact setRows_of_ne hname _
  | delete stmt =>
    have hname : stmt.tableName ≠ name := fun he => hne (congrArg some he)
    rcases db.onTable_cases stmt.tableName with hnone | ⟨table, hsome, htable⟩
    · rw [execute_delete_of_none hnone]
    · rw [execute_delete hsome htable]
      exact setRows_of_ne hname _
  | other => rfl

/-! ### The table named decides -/

omit [Doubles D] in
lemma getTable_congr (h : db.tables[name]? = db'.tables[name]?) :
    db.getTable name = db'.getTable name := by
  rw [Database.getTable, Database.getTable, h]

omit [Doubles D] in
lemma setRows_congr (h : db.tables[name]? = db'.tables[name]?) (rows : List (Row D)) :
    (db.setRows name rows).tables[name]? = (db'.setRows name rows).tables[name]? := by
  rw [Database.getElem?_setRows, Database.getElem?_setRows, h]

/-- Two databases with the same table under a name answer a statement on it alike, and have the
same table there again. -/
lemma execute_congr {stmt : Statement} (hon : isOn name stmt = true)
    (h : db.tables[name]? = db'.tables[name]?) :
    (execute db stmt).1 = (execute db' stmt).1 ∧
      (execute db stmt).2.tables[name]? = (execute db' stmt).2.tables[name]? := by
  have hnamed : named stmt = some name := of_decide_eq_true hon
  cases stmt with
  | createTable stmt =>
    obtain rfl := Option.some.inj hnamed
    have hmem : stmt.tableName ∈ db.tables ↔ stmt.tableName ∈ db'.tables := by
      rw [ExtTreeMap.mem_iff_isSome_getElem?, ExtTreeMap.mem_iff_isSome_getElem?, h]
    by_cases hin : stmt.tableName ∈ db.tables
    · simp only [execute, executeCreateTable, Database.createTable, if_pos hin,
        if_pos (hmem.mp hin)]
      split_ifs <;> exact ⟨rfl, h⟩
    · simp only [execute, executeCreateTable, Database.createTable, if_neg hin,
        if_neg (mt hmem.mpr hin)]
      split_ifs
      · exact ⟨rfl, h⟩
      · exact ⟨rfl, h⟩
      · refine ⟨rfl, ?_⟩
        exact ExtTreeMap.getElem?_insert_self.trans ExtTreeMap.getElem?_insert_self.symm
  | insert stmt =>
    obtain rfl := Option.some.inj hnamed
    simp only [execute, executeInsert, getTable_congr h]
    split_ifs with hname
    · exact ⟨rfl, h⟩
    · rcases db'.getTable stmt.tableName with e | table
      · exact ⟨rfl, h⟩
      · exact ⟨rfl, setRows_congr h _⟩
  | select stmt =>
    obtain rfl := Option.some.inj hnamed
    rw [execute_select, execute_select]
    refine ⟨?_, h⟩
    have hselect : executeSelect db stmt = executeSelect db' stmt := by
      simp only [executeSelect, getTable_congr h]
    simp only [execute, hselect]
    split <;> rfl
  | update stmt =>
    obtain rfl := Option.some.inj hnamed
    simp only [execute, executeUpdate, getTable_congr h]
    split_ifs with hname
    · exact ⟨rfl, h⟩
    · rcases db'.getTable stmt.tableName with e | table
      · exact ⟨rfl, h⟩
      · exact ⟨rfl, setRows_congr h _⟩
  | delete stmt =>
    obtain rfl := Option.some.inj hnamed
    simp only [execute, executeDelete, getTable_congr h]
    split_ifs with hname
    · exact ⟨rfl, h⟩
    · rcases db'.getTable stmt.tableName with e | table
      · exact ⟨rfl, h⟩
      · exact ⟨rfl, setRows_congr h _⟩
  | other => cases hnamed

def answer (db : Database D) (stmt : Statement) : Option (QueryResult D) := (execute db stmt).1

/-- **Tables do not interfere**: in every interleaving of statements, whether they fail or not,
those on one table are answered, and leave it, as if the others had not been there. -/
theorem independent (db : Database D) (stmts : List Statement) (name : String) :
    answers step (isOn name) answer db stmts =
        answers step (isOn name) answer db (stmts.filter (isOn name)) ∧
      (run step db stmts).tables[name]? =
        (run step db (stmts.filter (isOn name))).tables[name]? := by
  let table := fun db : Database D => db.tables[name]?
  have hother : ∀ db stmt, isOn name stmt = false → table (step db stmt) = table db :=
    fun db stmt h => tables_execute_of_other h
  have hmine : ∀ db db' stmt, isOn name stmt = true → table db = table db' →
      table (step db stmt) = table (step db' stmt) :=
    fun db db' stmt hon h => (execute_congr hon h).2
  have hanswer : ∀ db db' stmt, isOn name stmt = true → table db = table db' →
      answer db stmt = answer db' stmt :=
    fun db db' stmt hon h => (execute_congr hon h).1
  exact ⟨answers_filter hother hmine hanswer rfl stmts, view_run_filter hother hmine rfl stmts⟩

/-! ### Tables keep their columns -/

/-- The schema a statement makes for a table, if there is none yet. -/
def made (name : String) : Statement → Option TableSchema
  | .createTable stmt =>
    if stmt.tableName = name ∧ name ≠ "" ∧ stmt.columns ≠ [] then
      some (.ofColumns name stmt.columns)
    else none
  | .insert _ => none
  | .select _ => none
  | .update _ => none
  | .delete _ => none
  | .other => none

def schemaAt (name : String) (db : Database D) : Option TableSchema :=
  db.tables[name]?.map Table.schema

omit [Doubles D] in
lemma schemaAt_setRows (name' : String) (rows : List (Row D)) :
    schemaAt name (db.setRows name' rows) = schemaAt name db := by
  rw [schemaAt, Database.getElem?_setRows, schemaAt]
  split_ifs
  · rcases db.tables[name]? with _ | table <;> rfl
  · rfl

omit [Doubles D] in
lemma executeCreateTable_eq (stmt : CreateTableStmt) :
    (executeCreateTable db stmt).2 =
      if stmt.tableName ≠ "" ∧ stmt.columns ≠ [] ∧ stmt.tableName ∉ db.tables then
        { db with
          tables := db.tables.insert stmt.tableName
            { schema := .ofColumns stmt.tableName stmt.columns } }
      else db := by
  unfold executeCreateTable
  by_cases hempty : stmt.tableName = ""
  · rw [if_pos hempty, if_neg fun h => h.1 hempty]
  by_cases hcolumns : stmt.columns = []
  · rw [if_neg hempty, if_pos hcolumns, if_neg fun h => h.2.1 hcolumns]
  rw [if_neg hempty, if_neg hcolumns, Database.createTable, if_neg hcolumns]
  by_cases hin : stmt.tableName ∈ db.tables
  · rw [if_pos hin, if_neg fun h => h.2.2 hin]
    rfl
  · rw [if_neg hin, if_pos ⟨hempty, hcolumns, hin⟩]
    rfl

omit [Doubles D] in
lemma schemaAt_createTable (stmt : CreateTableStmt) :
    schemaAt name (executeCreateTable db stmt).2 =
      (schemaAt name db).or (made name (.createTable stmt)) := by
  rw [executeCreateTable_eq]
  split_ifs with hnew
  · obtain ⟨hempty, hcolumns, hout⟩ := hnew
    rw [schemaAt, made, schemaAt]
    by_cases hname : stmt.tableName = name
    · subst hname
      have hnone : db.tables[stmt.tableName]? = none :=
        ExtTreeMap.getElem?_eq_none hout
      rw [ExtTreeMap.getElem?_insert_self, hnone, if_pos ⟨rfl, hempty, hcolumns⟩]
      rfl
    · rw [getElem?_insert_of_ne _ hname, if_neg fun h => hname h.1, Option.or_none]
  · rw [made]
    split_ifs with hmade
    · obtain ⟨rfl, hempty, hcolumns⟩ := hmade
      have hin : stmt.tableName ∈ db.tables := by
        by_contra hout
        exact hnew ⟨hempty, hcolumns, hout⟩
      rw [schemaAt, ExtTreeMap.getElem?_eq_some_getElem hin]
      rfl
    · rw [Option.or_none]

/-- A table keeps its schema, and one that is new gets the one it is made with. -/
lemma schemaAt_step (db : Database D) (stmt : Statement) :
    schemaAt name (step db stmt) = (schemaAt name db).or (made name stmt) := by
  unfold SqlConstraints.step
  cases stmt with
  | createTable stmt => exact schemaAt_createTable stmt
  | insert stmt =>
    rw [made, Option.or_none]
    rcases db.onTable_cases stmt.tableName with hnone | ⟨table, hsome, htable⟩
    · rw [execute_insert_of_none hnone]
    · rw [execute_insert hsome htable]
      exact schemaAt_setRows _ _
  | select stmt => rw [execute_select, made, Option.or_none]
  | update stmt =>
    rw [made, Option.or_none]
    rcases db.onTable_cases stmt.tableName with hnone | ⟨table, hsome, htable⟩
    · rw [execute_update_of_none hnone]
    · rw [execute_update hsome htable]
      exact schemaAt_setRows _ _
  | delete stmt =>
    rw [made, Option.or_none]
    rcases db.onTable_cases stmt.tableName with hnone | ⟨table, hsome, htable⟩
    · rw [execute_delete_of_none hnone]
    · rw [execute_delete hsome htable]
      exact schemaAt_setRows _ _
  | other => exact Option.or_none.symm

lemma schemaAt_run (db : Database D) (stmts : List Statement) :
    schemaAt name (run step db stmts) = (schemaAt name db).or (stmts.findSome? (made name)) := by
  induction stmts generalizing db with
  | nil => rw [run_nil, List.findSome?_nil, Option.or_none]
  | cons stmt stmts ih =>
    rw [run_cons, ih, schemaAt_step, Option.or_assoc, List.findSome?_cons]
    rcases made name stmt with _ | schema
    · rw [Option.none_or]
    · rw [Option.some_or]

/-- **The first definition of a table is the last**: whatever statements were executed, a table
is there exactly when one has created it, with the schema that the first such one has. -/
theorem schema_run (D : Type) [Doubles D] (stmts : List Statement) (name : String) :
    schemaAt name (run step ({} : Database D) stmts) = stmts.findSome? (made name) := by
  rw [schemaAt_run, schemaAt, ExtTreeMap.getElem?_empty]
  rfl

end Dbx4.SqlTables
