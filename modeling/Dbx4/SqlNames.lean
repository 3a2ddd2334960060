import Dbx4.SqlSchema

/-!
Statements that name columns the table does not have.

Only the columns of a select list are looked up before the rows are. The names in a `WHERE`
clause, a `SET` list and an `ORDER BY` are looked up where an evaluation gets to them, so on an
empty table never.
-/

namespace Dbx4.SqlNames

open Std Dbx4.ForEach Dbx4.Runs Dbx4.SqlAst Dbx4.SqlValue Dbx4.SqlEval Dbx4.SqlExec
open Dbx4.SqlSchema

/-! ### The columns a statement names -/

def columnsIn : Expression → List String
  | .literal .. => []
  | .identifier name => [name]
  | .binaryOp left right _ => columnsIn left ++ columnsIn right
  | .unaryOp operand _ => columnsIn operand
  | .other => []

def clauseColumns (whereClause : Option Expression) : List String :=
  (whereClause.map columnsIn).getD []

/-- The select list `*`. -/
def isStar : List Expression → Bool
  | [.identifier name] => name = "*"
  | _ => false

def listColumns (columns : List Expression) : List String :=
  if isStar columns then [] else columns.flatMap columnsIn

/-- The columns named in a statement about the rows of a table. -/
def named : Statement → List String
  | .select stmt =>
    listColumns stmt.columns ++ clauseColumns stmt.whereClause ++ stmt.orderBy.map Prod.fst
  | .update stmt =>
    stmt.assignments.map Prod.fst ++ stmt.assignments.flatMap (fun a => columnsIn a.2) ++
      clauseColumns stmt.whereClause
  | .delete stmt => clauseColumns stmt.whereClause
  | _ => []

def tableName : Statement → String
  | .createTable stmt => stmt.tableName
  | .insert stmt => stmt.tableName
  | .select stmt => stmt.tableName
  | .update stmt => stmt.tableName
  | .delete stmt => stmt.tableName
  | .other => ""

/-- The statement has a column of its select list, by itself, that the table does not have. -/
def SelectsUnknown (schema : TableSchema) : Statement → Prop
  | .select stmt => isStar stmt.columns = false ∧
      ∃ name, Expression.identifier name ∈ stmt.columns ∧ name ∉ schema.columnIndex
  | _ => False

variable {D : Type} [Doubles D]

def Fails (db : Database D) (stmt : Statement) : Prop :=
  ∃ result, (execute db stmt).1 = some result ∧ result.success = false

variable (D) in
/-- A statement that names a column the table does not have fails, whatever the rows. -/
def Rejects (schema : TableSchema) (stmt : Statement) : Prop :=
  (∃ name ∈ named stmt, name ∉ schema.columnIndex) → ∀ (db : Database D) (rows : List (Row D)),
    db.tables[tableName stmt]? = some { schema := schema, rows := rows } → Fails db stmt

/-! ### The select list -/

lemma validateColumnExists_error {colName : String} {schema : TableSchema} :
    (∃ e, validateColumnExists colName schema = .error e) ↔ colName ∉ schema.columnIndex := by
  unfold validateColumnExists
  split_ifs with h <;> simp [h]

lemma foldlM_error_iff {f : List String → Expression → Except Throw (List String)}
    {schema : TableSchema}
    (hname : ∀ selected name, f selected (.identifier name) = do
      validateColumnExists name schema
      return selected ++ [name])
    (hother : ∀ selected column, (∀ name, column ≠ .identifier name) →
      f selected column = .ok selected) (columns : List Expression) (selected : List String) :
    (∃ e, columns.foldlM f selected = .error e) ↔
      ∃ name, Expression.identifier name ∈ columns ∧ name ∉ schema.columnIndex := by
  induction columns generalizing selected with
  | nil => exact iff_of_false (fun ⟨e, h⟩ => by cases h) (by simp)
  | cons column columns ih =>
    rw [List.foldlM_cons]
    by_cases hcolumn : ∃ name, column = .identifier name
    · obtain ⟨name, rfl⟩ := hcolumn
      rw [hname]
      by_cases hmem : name ∈ schema.columnIndex
      · have hvalid : validateColumnExists name schema = .ok () := if_pos hmem
        rw [hvalid]
        refine (ih (selected ++ [name])).trans ⟨?_, ?_⟩
        · rintro ⟨other, hother, habsent⟩
          exact ⟨other, List.mem_cons_of_mem _ hother, habsent⟩
        · rintro ⟨other, hother, habsent⟩
          rcases List.mem_cons.mp hother with heq | hother
          · cases heq
            exact absurd hmem habsent
          · exact ⟨other, hother, habsent⟩
      · obtain ⟨e, he⟩ := validateColumnExists_error.mpr hmem
        rw [he]
        exact iff_of_true ⟨e, rfl⟩ ⟨name, List.mem_cons_self, hmem⟩
    · have hne : ∀ name, column ≠ .identifier name := fun name h => hcolumn ⟨name, h⟩
      rw [hother selected column hne, ok_bind, ih]
      refine exists_congr fun name => and_congr_left fun _ => ?_
      rw [List.mem_cons, or_iff_right (hne name).symm]

lemma selectColumns_error_iff (schema : TableSchema) (columns : List Expression) :
    (∃ e, selectColumns schema columns = .error e) ↔ isStar columns = false ∧
      ∃ name, Expression.identifier name ∈ columns ∧ name ∉ schema.columnIndex := by
  unfold selectColumns
  split
  case h_1 name =>
    simp only [isStar, List.mem_singleton, Expression.identifier.injEq]
    split_ifs with hstar
    · exact iff_of_false (fun ⟨e, h⟩ => by cases h) (by simp [hstar])
    · rw [decide_eq_false hstar]
      simp only [true_and, exists_eq_left, ← validateColumnExists_error]
      rcases validateColumnExists name schema with e | _
      · exact iff_of_true ⟨e, rfl⟩ ⟨e, rfl⟩
      · exact iff_of_false (fun ⟨e, h⟩ => by cases h) fun ⟨e, h⟩ => by cases h
  case h_2 column hne =>
    refine iff_of_false (fun ⟨e, h⟩ => by cases h) ?_
    rintro ⟨-, name, hmem, -⟩
    exact hne name (List.mem_singleton.mp hmem).symm
  case h_3 hone hsingle =>
    have hstar : isStar columns = false := by
      match columns with
      | [] => rfl
      | [column] => exact (hsingle column rfl).elim
      | c :: _ :: _ => cases c <;> rfl
    rw [hstar]
    refine (foldlM_error_iff (fun _ _ => rfl) ?_ columns []).trans (by simp)
    intro selected column hne
    cases column with
    | identifier name => exact absurd rfl (hne name)
    | _ => rfl

/-! ### Statements -/

lemma fails_of_unknown {db : Database D} {stmt : SelectStatement} {table : Table D}
    (hname : stmt.tableName ≠ "") (htable : db.tables[stmt.tableName]? = some table)
    (h : SelectsUnknown table.schema (.select stmt)) : Fails db (.select stmt) := by
  obtain ⟨e, he⟩ := (selectColumns_error_iff table.schema stmt.columns).mpr h
  have hthrow : executeSelect db stmt = .error e := by
    rw [executeSelect_of_table hname htable, he]
    rfl
  exact ⟨_, by rw [execute, hthrow], rfl⟩

lemma fails_of_tableName_eq {db : Database D} {stmt : Statement} (hname : tableName stmt = "")
    (hstmt : named stmt ≠ []) : Fails db stmt := by
  cases stmt with
  | select stmt => exact ⟨_, by rw [execute, executeSelect_of_eq_empty hname], rfl⟩
  | update stmt =>
    have hempty : stmt.tableName = "" := hname
    exact ⟨_, by rw [execute, executeUpdate, if_pos hempty], rfl⟩
  | delete stmt =>
    have hempty : stmt.tableName = "" := hname
    exact ⟨_, by rw [execute, executeDelete, if_pos hempty], rfl⟩
  | _ => exact absurd rfl hstmt

/-- On no rows, a `SELECT` succeeds once its list is checked, or reads outside. -/
lemma executeSelect_emptyTable {db : Database D} {stmt : SelectStatement}
    {schema : TableSchema} {columns : List String} (hname : stmt.tableName ≠ "")
    (htable : db.tables[stmt.tableName]? = some { schema := schema })
    (hcolumns : selectColumns schema stmt.columns = .ok columns) :
    ∃ result?, executeSelect db stmt = .ok result? ∧
      ∀ result, result? = some result → result.success = true := by
  have hordered : ordered schema stmt.orderBy ([] : List (Row D)) = .ok [] := by
    unfold ordered
    split_ifs <;> rfl
  have hselect : executeSelect db stmt =
      .ok ((page stmt.limit stmt.offset ([] : List (Row D))).map fun rows =>
        { columnNames := columns
          rows := rows.map (project columns)
          rowsAffected := Int32.ofNat rows.length
          success := true }) := by
    rw [executeSelect_of_table hname htable, hcolumns]
    show (ordered schema stmt.orderBy ([] : List (Row D)) >>= _) = _
    rw [hordered]
    rfl
  refine ⟨_, hselect, fun result hresult => ?_⟩
  obtain ⟨rows, -, rfl⟩ := Option.map_eq_some_iff.mp hresult
  rfl

/-- On an empty table, a statement only fails for its select list. -/
lemma not_fails_emptyTable {schema : TableSchema} {stmt : Statement}
    (hname : tableName stmt ≠ "") (hstmt : named stmt ≠ [])
    (h : ¬ SelectsUnknown schema stmt) :
    ¬ Fails (emptyTable D (tableName stmt) schema) stmt := by
  have htable : (emptyTable D (tableName stmt) schema).tables[tableName stmt]? =
      some { schema := schema } := ExtTreeMap.getElem?_insert_self
  rintro ⟨result, hresult, hfalse⟩
  cases stmt with
  | select stmt =>
    have hcolumns : ∃ columns, selectColumns schema stmt.columns = .ok columns := by
      rcases hsel : selectColumns schema stmt.columns with e | columns
      · exact absurd ((selectColumns_error_iff schema stmt.columns).mp ⟨e, hsel⟩) h
      · exact ⟨columns, rfl⟩
    obtain ⟨columns, hcolumns⟩ := hcolumns
    obtain ⟨result?, hselect, hsuccess⟩ := executeSelect_emptyTable hname htable hcolumns
    have hexecute : (execute (emptyTable D (tableName (.select stmt)) schema)
        (.select stmt)).1 = result? := by
      simp only [execute, hselect]
    have htrue := hsuccess result (hexecute.symm.trans hresult)
    rw [htrue] at hfalse
    cases hfalse
  | update stmt =>
    rw [execute_update hname htable] at hresult
    cases hresult
    cases hfalse
  | delete stmt =>
    rw [execute_delete hname htable] at hresult
    cases hresult
    cases hfalse
  | _ => exact hstmt rfl

/-- **When an unknown column makes a statement fail**, whatever the rows: exactly when it stands
by itself in the list of a `SELECT`. -/
theorem rejects_iff (D : Type) [Doubles D] (schema : TableSchema) (stmt : Statement) :
    Rejects D schema stmt ↔ tableName stmt = "" ∨
      (∀ name ∈ named stmt, name ∈ schema.columnIndex) ∨ SelectsUnknown schema stmt := by
  constructor
  · intro h
    by_contra hnot
    obtain ⟨hname, hknown, hselect⟩ : tableName stmt ≠ "" ∧
        (¬ ∀ name ∈ named stmt, name ∈ schema.columnIndex) ∧ ¬ SelectsUnknown schema stmt := by
      simpa only [not_or] using hnot
    obtain ⟨name, hmem, habsent⟩ : ∃ name ∈ named stmt, name ∉ schema.columnIndex := by
      simpa only [not_forall, exists_prop] using hknown
    have hempty : ¬ Fails (emptyTable D (tableName stmt) schema) stmt :=
      not_fails_emptyTable hname (List.ne_nil_of_mem hmem) hselect
    have htable : (emptyTable D (tableName stmt) schema).tables[tableName stmt]? =
        some { schema := schema, rows := ([] : List (Row D)) } := ExtTreeMap.getElem?_insert_self
    exact hempty (h ⟨name, hmem, habsent⟩ _ [] htable)
  · rintro h ⟨name, hmem, habsent⟩ db rows htable
    rcases h with hname | hknown | hselect
    · exact fails_of_tableName_eq hname (List.ne_nil_of_mem hmem)
    · exact absurd (hknown name hmem) habsent
    · cases stmt with
      | select stmt =>
        by_cases hname : stmt.tableName = ""
        · exact fails_of_tableName_eq hname (List.ne_nil_of_mem hmem)
        · exact fails_of_unknown hname htable hselect
      | _ => exact hselect.elim

def oneColumn : TableSchema := .ofColumns "t" [{ name := "a", type := .INT }]

/-- `SELECT a FROM t WHERE nosuch = 1`. -/
def selectNosuch : Statement := .select {
  columns := [.identifier "a"]
  tableName := "t"
  whereClause := some (.binaryOp (.identifier "nosuch") (.literal "1" .NUMBER) .EQUALS) }

/-- On an empty table the unknown column of a `WHERE` clause goes unnoticed. -/
theorem not_rejects_selectNosuch : ¬ Rejects ℚ oneColumn selectNosuch := by
  intro h
  obtain ⟨result, hresult, hfalse⟩ :=
    h ⟨"nosuch", by decide, by decide⟩ (emptyTable ℚ "t" oneColumn) [] rfl
  have hsuccess : ((execute (emptyTable ℚ "t" oneColumn) selectNosuch).1.map
      QueryResult.success) = some true := by decide
  rw [hresult] at hsuccess
  simp [hfalse] at hsuccess

end Dbx4.SqlNames
