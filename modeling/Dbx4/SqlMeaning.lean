import Mathlib.Logic.Function.Basic
import Dbx4.SqlTypes
import Dbx4.SqlUpdate

/-!
What statements mean for relations.

A database is a relation under each name. `INSERT` adds rows to one, `UPDATE` maps its rows,
and `DELETE` filters them: every statement that succeeds does just that, and reports how many
rows it was about.
-/

namespace Dbx4.SqlMeaning

open Std Dbx4.ForEach Dbx4.Maps Dbx4.Runs Dbx4.SqlAst Dbx4.SqlValue Dbx4.SqlEval Dbx4.SqlExec
open Dbx4.SqlAtomic Dbx4.SqlConstraints Dbx4.SqlTypes Dbx4.SqlUpdate

/-! ### Relations -/

abbrev Relations (D : Type) := String → Option (Table D)

variable {D : Type}

/-- Other rows under a name. -/
def Relations.alter (rel : Relations D) (name : String) (f : Table D → List (Row D)) :
    Relations D :=
  Function.update rel name ((rel name).map fun table => { table with rows := f table })

def Relations.rows (rel : Relations D) (name : String) : List (Row D) :=
  (rel name).elim [] Table.rows

def relations (db : Database D) : Relations D := fun name => db.tables[name]?

lemma setRows_self {db : Database D} {name : String} {table : Table D}
    (htable : db.tables[name]? = some table) (rows : List (Row D)) :
    (db.setRows name rows).tables[name]? = some { table with rows := rows } := by
  rw [Database.getElem?_setRows, if_pos rfl, htable]
  rfl

lemma relations_setRows {db : Database D} {name : String} {table : Table D}
    (htable : db.tables[name]? = some table) (f : Table D → List (Row D)) :
    relations (db.setRows name (f table)) = (relations db).alter name f := by
  funext name'
  rw [relations, Database.getElem?_setRows, Relations.alter]
  split_ifs with hname
  · subst hname
    rw [Function.update_self, relations, htable]
    rfl
  · rw [Function.update_of_ne (Ne.symm hname), relations]

variable [Doubles D]

/-- The clause is true of the row. -/
def chosen (whereClause : Option Expression) (row : Row D) : Bool :=
  match selects whereClause row with
  | .ok b => b
  | .error _ => false

/-- The rows that the values of an `INSERT` make. -/
def builtRows (stmt : InsertStmt) (schema : TableSchema) (values : List (List Expression)) :
    List (Row D) :=
  values.filterMap fun valueRow => (buildRow stmt schema valueRow).toOption

def meaning (rel : Relations D) : Statement → Relations D
  | .createTable stmt =>
    Function.update rel stmt.tableName (some { schema := .ofColumns stmt.tableName stmt.columns })
  | .insert stmt => rel.alter stmt.tableName fun table =>
      table.rows ++ builtRows stmt table.schema stmt.values
  | .select _ => rel
  | .update stmt => rel.alter stmt.tableName fun table => table.rows.map (updatedRow stmt)
  | .delete stmt => rel.alter stmt.tableName fun table =>
      table.rows.filter fun row => !chosen stmt.whereClause row
  | .other => rel

/-- The number of rows a statement changes. -/
def affected (rel : Relations D) : Statement → ℕ
  | .createTable _ => 0
  | .insert stmt => stmt.values.length
  | .select _ => 0
  | .update stmt => (rel.rows stmt.tableName).countP (isMatch stmt)
  | .delete stmt => (rel.rows stmt.tableName).countP (chosen stmt.whereClause)
  | .other => 0

/-! ### Loops that do not throw -/

lemma builtRows_cons {stmt : InsertStmt} {schema : TableSchema} {valueRow : List Expression}
    {newRow : Row D} (h : buildRow stmt schema valueRow = .ok newRow)
    (values : List (List Expression)) :
    builtRows stmt schema (valueRow :: values) = newRow :: builtRows stmt schema values :=
  List.filterMap_cons_some (by rw [h]; rfl)

lemma insert_of_none {stmt : InsertStmt} {schema : TableSchema} {s : List (Row D) × ℕ}
    {values : List (List Expression)}
    (h : (forEach (insertTurn stmt schema) s values).thrown = none) :
    forEach (insertTurn stmt schema) s values =
      ⟨none, (s.1 ++ builtRows stmt schema values, s.2 + values.length), []⟩ := by
  induction values generalizing s with
  | nil => simp [forEach, builtRows]
  | cons valueRow values ih =>
    rcases hturn : insertTurn stmt schema s valueRow values with ⟨_ | e, s'⟩
    · obtain ⟨newRow, haccept, rfl⟩ := insertTurn_ok hturn
      have hbuild := buildRow_of_acceptRow haccept
      rw [forEach_cons_of_none hturn] at h ⊢
      rw [ih h, builtRows_cons hbuild, List.length_cons]
      simp only [List.append_assoc, List.singleton_append, Nat.add_assoc, Nat.add_comm 1]
    · rw [forEach, hturn] at h
      cases h

lemma chosen_of_selects {whereClause : Option Expression} {row : Row D} {b : Bool}
    (h : selects whereClause row = .ok b) : chosen whereClause row = b := by
  rw [chosen, h]

/-- The rows kept, and as many positions behind them as there are rows to go. -/
lemma remove_of_none {whereClause : Option Expression} {kept gap rows : List (Row D)}
    (h : (forEach (removeTurn whereClause) (kept, gap) rows).thrown = none) :
    ∃ gap', forEach (removeTurn whereClause) (kept, gap) rows =
        ⟨none, (kept ++ rows.filter fun row => !chosen whereClause row, gap'), []⟩ ∧
      gap'.length = gap.length + rows.countP (chosen whereClause) := by
  induction rows generalizing kept gap with
  | nil => exact ⟨gap, by simp [forEach], by simp⟩
  | cons row rows ih =>
    rcases hturn : removeTurn whereClause (kept, gap) row rows with ⟨_ | e, s'⟩
    · rw [forEach_cons_of_none hturn] at h ⊢
      rcases removeTurn_ok hturn with ⟨hsel, rfl⟩ | ⟨hsel, hkept⟩
      · obtain ⟨gap', hloop, hlength⟩ := ih h
        refine ⟨gap', ?_, ?_⟩
        · rw [hloop, List.filter_cons_of_neg (by simp [chosen_of_selects hsel])]
        · rw [hlength, List.countP_cons_of_pos (chosen_of_selects hsel), List.length_append,
            List.length_singleton, Nat.add_assoc, Nat.add_comm 1]
      · obtain ⟨gap'', rfl, hsame⟩ : ∃ gap'', s' = (kept ++ [row], gap'') ∧
            gap''.length = gap.length := by
          rcases hkept with ⟨rfl, rfl⟩ | ⟨r, rs, rfl, rfl⟩
          · exact ⟨[], rfl, rfl⟩
          · exact ⟨rs ++ [∅], rfl, by simp⟩
        obtain ⟨gap', hloop, hlength⟩ := ih h
        refine ⟨gap', ?_, ?_⟩
        · rw [hloop, List.filter_cons_of_pos (by simp [chosen_of_selects hsel]),
            List.append_assoc, List.singleton_append]
        · rw [hlength, hsame, List.countP_cons_of_neg (by simp [chosen_of_selects hsel])]
    · rw [forEach, hturn] at h
      cases h

/-! ### One statement -/

def succeeded (db : Database D) (stmt : Statement) : Bool :=
  (execute db stmt).1.any QueryResult.success

lemma succeeded_iff {db : Database D} {stmt : Statement} :
    succeeded db stmt = true ↔
      ∃ result, (execute db stmt).1 = some result ∧ result.success = true :=
  Option.any_eq_true _ _

/-- What a statement that changes rows reports. -/
def report (rel : Relations D) (stmt : Statement) : QueryResult D :=
  { success := true, rowsAffected := Int32.ofNat (affected rel stmt) }

lemma means_createTable {db : Database D} {stmt : CreateTableStmt}
    (h : succeeded db (.createTable stmt) = true) :
    (execute db (.createTable stmt)).1 = some (report (relations db) (.createTable stmt)) ∧
      relations (execute db (.createTable stmt)).2 =
        meaning (relations db) (.createTable stmt) := by
  obtain ⟨result, hresult, hsuccess⟩ := succeeded_iff.mp h
  simp only [execute] at hresult ⊢
  rcases executeCreateTable_cases db stmt with ⟨e, he⟩ | ⟨-, he⟩
  · rw [he] at hresult
    rw [← Option.some.inj hresult] at hsuccess
    cases hsuccess
  · rw [he]
    refine ⟨rfl, ?_⟩
    funext name
    rw [meaning, relations]
    by_cases hname : stmt.tableName = name
    · subst hname
      rw [Function.update_self, ExtTreeMap.getElem?_insert_self]
    · rw [Function.update_of_ne (Ne.symm hname), getElem?_insert_of_ne _ hname, relations]

omit [Doubles D] in
lemma thrown_of_success {thrown : Option Throw} {result result' : QueryResult D}
    (h : some (caught (outcome thrown result)) = some result') (hsuccess : result'.success = true) :
    thrown = none := by
  rcases thrown with _ | e
  · rfl
  · rw [← Option.some.inj h] at hsuccess
    cases hsuccess

omit [Doubles D] in
lemma rows_relations {db : Database D} {name : String} {table : Table D}
    (h : db.tables[name]? = some table) : (relations db).rows name = table.rows := by
  rw [Relations.rows, relations, h]
  rfl

lemma not_succeeded_insert {db : Database D} {stmt : InsertStmt}
    (h : stmt.tableName = "" ∨ db.tables[stmt.tableName]? = none) :
    ¬ succeeded db (.insert stmt) = true := by
  rw [succeeded_iff]
  rintro ⟨result, hresult, hsuccess⟩
  simp only [execute, executeInsert, Database.getTable] at hresult
  split_ifs at hresult with hname
  · rw [← Option.some.inj hresult] at hsuccess
    cases hsuccess
  · rw [h.resolve_left hname] at hresult
    rw [← Option.some.inj hresult] at hsuccess
    cases hsuccess

lemma not_succeeded_delete {db : Database D} {stmt : DeleteStmt}
    (h : stmt.tableName = "" ∨ db.tables[stmt.tableName]? = none) :
    ¬ succeeded db (.delete stmt) = true := by
  rw [succeeded_iff]
  rintro ⟨result, hresult, hsuccess⟩
  simp only [execute, executeDelete, Database.getTable] at hresult
  split_ifs at hresult with hname
  · rw [← Option.some.inj hresult] at hsuccess
    cases hsuccess
  · rw [h.resolve_left hname] at hresult
    rw [← Option.some.inj hresult] at hsuccess
    cases hsuccess

lemma means_insert {db : Database D} {stmt : InsertStmt}
    (h : succeeded db (.insert stmt) = true) :
    (execute db (.insert stmt)).1 = some (report (relations db) (.insert stmt)) ∧
      relations (execute db (.insert stmt)).2 = meaning (relations db) (.insert stmt) := by
  rcases db.onTable_cases stmt.tableName with hnone | ⟨table, hname, htable⟩
  · exact absurd h (not_succeeded_insert hnone)
  · obtain ⟨result, hresult, hsuccess⟩ := succeeded_iff.mp h
    rw [execute_insert hname htable] at hresult ⊢
    have hloop := insert_of_none (thrown_of_success hresult hsuccess)
    rw [hloop]
    refine ⟨?_, relations_setRows htable fun table =>
      table.rows ++ builtRows stmt table.schema stmt.values⟩
    simp [caught, outcome, report, affected]

lemma means_update {db : Database D} {stmt : UpdateStmt}
    (h : succeeded db (.update stmt) = true) :
    (execute db (.update stmt)).1 = some (report (relations db) (.update stmt)) ∧
      relations (execute db (.update stmt)).2 = meaning (relations db) (.update stmt) := by
  have hsucceeds : Succeeds db stmt := succeeded_iff.mp h
  rcases db.onTable_cases stmt.tableName with hnone | ⟨table, hname, htable⟩
  · exact absurd hsucceeds (not_succeeds_of_none hnone)
  · rw [hsucceeds.execute_eq hname htable, report, affected, rows_relations htable]
    exact ⟨rfl, relations_setRows htable fun table => table.rows.map (updatedRow stmt)⟩

lemma means_delete {db : Database D} {stmt : DeleteStmt}
    (h : succeeded db (.delete stmt) = true) :
    (execute db (.delete stmt)).1 = some (report (relations db) (.delete stmt)) ∧
      relations (execute db (.delete stmt)).2 = meaning (relations db) (.delete stmt) := by
  rcases db.onTable_cases stmt.tableName with hnone | ⟨table, hname, htable⟩
  · exact absurd h (not_succeeded_delete hnone)
  · obtain ⟨result, hresult, hsuccess⟩ := succeeded_iff.mp h
    rw [execute_delete hname htable] at hresult ⊢
    obtain ⟨gap, hloop, hlength⟩ := remove_of_none (thrown_of_success hresult hsuccess)
    rw [hloop, report, affected, rows_relations htable]
    refine ⟨?_, relations_setRows htable fun table =>
      table.rows.filter fun row => !chosen stmt.whereClause row⟩
    simp [caught, outcome, hlength]

/-- **One statement** that succeeds does what it means, and reports how many rows it has
changed unless it is a `SELECT`. -/
theorem execute_means {db : Database D} {stmt : Statement} (h : succeeded db stmt = true) :
    relations (execute db stmt).2 = meaning (relations db) stmt ∧
      ((∀ select, stmt ≠ .select select) →
        (execute db stmt).1 = some (report (relations db) stmt)) := by
  cases stmt with
  | createTable stmt => exact ⟨(means_createTable h).2, fun _ => (means_createTable h).1⟩
  | insert stmt => exact ⟨(means_insert h).2, fun _ => (means_insert h).1⟩
  | select stmt => exact ⟨by rw [execute_select, meaning], fun hno => absurd rfl (hno stmt)⟩
  | update stmt => exact ⟨(means_update h).2, fun _ => (means_update h).1⟩
  | delete stmt => exact ⟨(means_delete h).2, fun _ => (means_delete h).1⟩
  | other =>
    obtain ⟨result, hresult, hsuccess⟩ := succeeded_iff.mp h
    rw [← Option.some.inj hresult] at hsuccess
    cases hsuccess

/-! ### Runs -/

/-- The statements of a run that succeed in their turn. -/
def successful (db : Database D) : List Statement → List Statement
  | [] => []
  | stmt :: stmts =>
    if succeeded db stmt then stmt :: successful (step db stmt) stmts
    else successful (step db stmt) stmts

lemma step_of_failed {db : Database D} {stmt : Statement} (hatomic : Atomic db stmt)
    (h : ¬ succeeded db stmt = true) : step db stmt = db := by
  unfold SqlConstraints.step
  rcases hresult : (execute db stmt).1 with _ | result
  · cases stmt with
    | select stmt => exact execute_select db stmt
    | _ => simp [execute] at hresult
  · refine hatomic result hresult (Bool.eq_false_iff.mpr fun hsuccess => ?_)
    exact h (succeeded_iff.mpr ⟨result, hresult, hsuccess⟩)

/-- **A run means what its successful statements mean**, one after another, as long as those
that fail leave no trace. -/
theorem run_means {db : Database D} {stmts : List Statement}
    (h : Along step Atomic db stmts) :
    relations (run step db stmts) = run meaning (relations db) (successful db stmts) := by
  induction stmts generalizing db with
  | nil => rfl
  | cons stmt stmts ih =>
    rw [run_cons, ih h.2, successful]
    split_ifs with hsucceeded
    · rw [run_cons, ← (execute_means hsucceeded).1]
      rfl
    · rw [step_of_failed h.1 hsucceeded]

lemma atomic_of_succeeded {db : Database D} {stmt : Statement} (h : succeeded db stmt = true) :
    Atomic db stmt := by
  intro result hresult hfailed
  obtain ⟨result', hresult', hsuccess⟩ := succeeded_iff.mp h
  rw [hresult] at hresult'
  cases hresult'
  rw [hfailed] at hsuccess
  cases hsuccess

/-- A table, a row in it, and one for a table that is not there. -/
def rowAndNoTable : List Statement :=
  [.createTable { tableName := "t", columns := [{ name := "a", type := .VARCHAR }] },
    .insert { tableName := "t", values := [[.literal "x" .STRING]] },
    .insert { tableName := "u", values := [[.literal "x" .STRING]] }]

theorem run_means_rowAndNoTable :
    (successful ({} : Database ℚ) rowAndNoTable).length = 2 ∧
      relations (run step ({} : Database ℚ) rowAndNoTable) =
        run meaning (relations {}) (successful ({} : Database ℚ) rowAndNoTable) := by
  refine ⟨by decide, run_means ⟨?_, ?_, ?_, trivial⟩⟩
  · exact atomic_of_succeeded (by decide)
  · exact atomic_of_succeeded (by decide)
  · exact atomic_of_unchanged (execute_insert_of_none (Or.inr (by decide)))

end Dbx4.SqlMeaning
