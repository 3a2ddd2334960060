import Dbx4.SqlConstraints

/-!
When stored values have the types of their columns.

`INSERT` converts a literal to the type of the literal, not to that of the column, and
`UPDATE` stores what an expression gives; only defaults are converted to the type of their
column. The types hold along a run exactly when these values happen to have them.
-/

namespace Dbx4.SqlTypes

open Std Dbx4.ForEach Dbx4.Maps Dbx4.Runs Dbx4.SqlAst Dbx4.SqlValue Dbx4.SqlEval Dbx4.SqlExec
open Dbx4.SqlRows Dbx4.SqlConstraints

variable {D : Type}

/-! ### Types -/

inductive Kind
  | int | double | string | bool
  deriving DecidableEq

def valueKind : Value D → Option Kind
  | .null => none
  | .int _ => some .int
  | .double _ => some .double
  | .string _ => some .string
  | .bool _ => some .bool

/-- The kind of value a column is declared for; none where the type says nothing. -/
def columnKind : TokenType → Option Kind
  | .INT | .BIGINT => some .int
  | .DOUBLE | .FLOAT => some .double
  | .VARCHAR | .TEXT | .CHAR => some .string
  | .BOOLEAN => some .bool
  | _ => none

/-- The kind of value a text becomes when it is converted to a type. -/
def textKind (type : TokenType) : Kind := (columnKind type).getD .string

/-- A value that may be stored in a column of the type. -/
def HasType (type : TokenType) (v : Value D) : Prop :=
  ∀ kind, columnKind type = some kind → v.isNull = false → valueKind v = some kind

def Typed (schema : TableSchema) (row : Row D) : Prop :=
  ∀ col ∈ schema.columns, ∀ v, row[col.name]? = some v → HasType col.type v

/-- A value of the kind fits a column of the type. -/
def KindFits (type : TokenType) (kind : Kind) : Prop :=
  ∀ kind', columnKind type = some kind' → kind = kind'

lemma hasType_iff {type : TokenType} {v : Value D} {kind : Kind} (h : valueKind v = some kind) :
    HasType type v ↔ KindFits type kind := by
  have hnull : v.isNull = false := by
    cases v with
    | null => cases h
    | _ => rfl
  simp only [HasType, KindFits, hnull, forall_const, h, Option.some_inj]

lemma hasType_null (type : TokenType) : HasType type (.null : Value D) := by
  intro kind _ hnull
  cases hnull

variable [Doubles D]

lemma valueKind_convertToType {s : String} {type : TokenType} {v : Value D}
    (h : convertToType (.string s) type = .ok v) : valueKind v = some (textKind type) := by
  have hnull : (Value.string s : Value D).isNull = false := rfl
  unfold convertToType at h
  rw [hnull, if_neg Bool.false_ne_true] at h
  cases type <;> dsimp only at h
  case INT | BIGINT =>
    rw [convertToInt] at h
    split at h <;> cases h
    rfl
  case DOUBLE | FLOAT =>
    rw [convertToDouble] at h
    split at h <;> cases h
    rfl
  all_goals cases h; rfl

lemma valueKind_insertedValue {value : String} {type : TokenType} {v : Value D}
    (h : insertedValue (.literal value type) = .ok v) : valueKind v = some (textKind type) := by
  rw [insertedValue] at h
  split_ifs at h with htype
  · subst htype
    exact valueKind_convertToType h
  · exact valueKind_convertToType h

/-! ### Where the values of a row come from -/

/-- What a list of values writes, column by column. -/
def written (stmt : InsertStmt) (schema : TableSchema) (valueRow : List Expression) :
    List (String × Expression) :=
  (if stmt.columns ≠ [] then stmt.columns else schema.columns.map ColumnDef.name).zip valueRow

/-- The last expression written under a name. -/
def lastFor (name : String) : List (String × Expression) → Option Expression
  | [] => none
  | (colName, expr) :: ws =>
    match lastFor name ws with
    | some last => some last
    | none => if colName = name then some expr else none

/-- The column whose default a name gets: the first one of that name. -/
def defaultColumn (schema : TableSchema) (name : String) : Option ColumnDef :=
  schema.columns.find? fun col => col.name = name

/-- What holds of the value that writing `ws` over a row leaves under a name. -/
def Written (ws : List (String × Expression)) (row row' : Row D) (name : String) : Prop :=
  match lastFor name ws with
  | some expr => ∃ v, insertedValue expr = .ok v ∧ row'[name]? = some v
  | none => row'[name]? = row[name]?

lemma written_of_foldlM {f : Row D → String × Expression → Except Throw (Row D)}
    (hbody : ∀ row w row', f row w = .ok row' →
      ∃ v, insertedValue w.2 = .ok v ∧ row' = row.insert w.1 v)
    {ws : List (String × Expression)} {row row' : Row D} (h : ws.foldlM f row = .ok row')
    (name : String) : Written ws row row' name := by
  induction ws generalizing row with
  | nil =>
    cases h
    rfl
  | cons w ws ih =>
    rw [List.foldlM_cons] at h
    obtain ⟨row₁, hw, hrest⟩ := bind_eq_ok.mp h
    obtain ⟨v, hv, rfl⟩ := hbody row w row₁ hw
    have hlast := ih hrest
    unfold Written at hlast ⊢
    rw [lastFor]
    rcases hname : lastFor name ws with _ | expr <;> rw [hname] at hlast
    · dsimp only at hlast ⊢
      split_ifs with heq
      · refine ⟨v, hv, ?_⟩
        rw [hlast, heq, ExtTreeMap.getElem?_insert_self]
      · rw [hlast, getElem?_insert_of_ne _ heq]
    · exact hlast

/-- A default: the value given for the column, or a null. -/
def IsDefault (col : ColumnDef) (v : Value D) : Prop :=
  if col.defaultValue ≠ "" then convertToType (.string col.defaultValue) col.type = .ok v
  else v = .null

lemma addDefault_cases {row row' : Row D} {col : ColumnDef} (h : addDefault row col = .ok row') :
    (col.name ∈ row ∧ row' = row) ∨
      (col.name ∉ row ∧ ∃ v, IsDefault col v ∧ row' = row.insert col.name v) := by
  unfold addDefault at h
  unfold IsDefault
  split_ifs at h with hmem hdefault
  · cases h
    exact Or.inl ⟨hmem, rfl⟩
  · obtain ⟨v, hv, hrow⟩ := bind_eq_ok.mp h
    cases hrow
    exact Or.inr ⟨hmem, v, by rwa [if_pos hdefault], rfl⟩
  · cases h
    exact Or.inr ⟨hmem, .null, by rw [if_neg hdefault], rfl⟩

lemma addDefaults_getElem? {cols : List ColumnDef} {row row' : Row D}
    (h : cols.foldlM addDefault row = .ok row') (name : String) :
    match row[name]? with
    | some v => row'[name]? = some v
    | none =>
      match cols.find? fun col => col.name = name with
      | some col => ∃ v, IsDefault col v ∧ row'[name]? = some v
      | none => row'[name]? = none := by
  induction cols generalizing row with
  | nil =>
    cases h
    rcases row'[name]? with _ | v
    · rfl
    · rfl
  | cons col cols ih =>
    rw [List.foldlM_cons] at h
    obtain ⟨row₁, hcol, hrest⟩ := bind_eq_ok.mp h
    have hafter := ih hrest
    rcases addDefault_cases hcol with ⟨hmem, rfl⟩ | ⟨hmem, v, hv, rfl⟩
    · rcases hname : row₁[name]? with _ | v <;> rw [hname] at hafter
      · have hne : ¬ col.name = name := by
          rintro rfl
          exact not_mem_of_getElem? hname hmem
        rw [List.find?_cons_of_neg (by simpa using hne)]
        exact hafter
      · exact hafter
    · by_cases heq : col.name = name
      · subst heq
        have hnone : row[col.name]? = none := ExtTreeMap.getElem?_eq_none hmem
        rw [ExtTreeMap.getElem?_insert_self] at hafter
        rw [hnone, List.find?_cons_of_pos (by simp)]
        exact ⟨v, hv, hafter⟩
      · rw [getElem?_insert_of_ne _ heq] at hafter
        rw [List.find?_cons_of_neg (by simpa using heq)]
        exact hafter

lemma lastFor_ne_none {name : String} {ws : List (String × Expression)}
    (h : name ∈ ws.map Prod.fst) : lastFor name ws ≠ none := by
  induction ws with
  | nil => cases h
  | cons w ws ih =>
    rw [lastFor]
    rcases hlast : lastFor name ws with _ | expr
    · rcases List.mem_cons.mp h with heq | hmem
      · rw [if_pos heq.symm]
        simp
      · exact absurd hlast (ih hmem)
    · simp

lemma buildRow_cases {stmt : InsertStmt} {schema : TableSchema} {valueRow : List Expression}
    {row : Row D} (h : buildRow stmt schema valueRow = .ok row) :
    (∃ newRow, (∀ name, Written (written stmt schema valueRow) ∅ newRow name) ∧
        schema.columns.foldlM addDefault newRow = .ok row) ∨
      ((∀ col ∈ schema.columns, lastFor col.name (written stmt schema valueRow) ≠ none) ∧
        ∀ name, Written (written stmt schema valueRow) ∅ row name) := by
  unfold buildRow at h
  unfold written
  split_ifs at h ⊢ with hexplicit hmismatch hmismatch
  · cases h
  · obtain ⟨newRow, hnew, hdefaults⟩ := bind_eq_ok.mp h
    refine Or.inl ⟨newRow, written_of_foldlM (fun row w row' hbody => ?_) hnew, hdefaults⟩
    obtain ⟨_, -, hinsert⟩ := bind_eq_ok.mp hbody
    obtain ⟨v, hv, hrow⟩ := bind_eq_ok.mp hinsert
    cases hrow
    exact ⟨v, hv, rfl⟩
  · cases h
  · have hlength : (schema.columns.map ColumnDef.name).length ≤ valueRow.length := by
      rw [List.length_map, not_not.mp hmismatch]
    refine Or.inr ⟨fun col hcol => lastFor_ne_none ?_, ?_⟩
    · rw [List.map_fst_zip hlength]
      exact List.mem_map_of_mem hcol
    · have hnames : (schema.columns.map ColumnDef.name).zip valueRow =
          (schema.columns.zip valueRow).map fun w => (w.1.name, w.2) := List.zip_map_left
      rw [hnames]
      refine written_of_foldlM (f := fun newRow (w : String × Expression) => do
        return newRow.insert w.1 (← insertedValue w.2)) (fun row w row' hbody => ?_) ?_
      · obtain ⟨v, hv, hrow⟩ := bind_eq_ok.mp hbody
        cases hrow
        exact ⟨v, hv, rfl⟩
      · rw [List.foldlM_map]
        exact h

/-- Every column of a new row has the value written last for it, or a default. -/
lemma buildRow_getElem? {stmt : InsertStmt} {schema : TableSchema} {valueRow : List Expression}
    {row : Row D} (h : buildRow stmt schema valueRow = .ok row) {col : ColumnDef}
    (hcol : col ∈ schema.columns) :
    match lastFor col.name (written stmt schema valueRow) with
    | some expr => ∃ v, insertedValue expr = .ok v ∧ row[col.name]? = some v
    | none => ∃ first v, defaultColumn schema col.name = some first ∧ IsDefault first v ∧
        row[col.name]? = some v := by
  rcases buildRow_cases h with ⟨newRow, hnew, hdefaults⟩ | ⟨hall, hrow⟩
  · have hwritten := hnew col.name
    have hafter := addDefaults_getElem? hdefaults col.name
    unfold Written at hwritten
    rcases hlast : lastFor col.name (written stmt schema valueRow) with _ | expr <;>
      rw [hlast] at hwritten
    · dsimp only at hwritten ⊢
      rw [hwritten, ExtTreeMap.getElem?_empty] at hafter
      dsimp only at hafter
      rcases hfind : schema.columns.find? fun c => c.name = col.name with _ | first
      · exact absurd (List.find?_eq_none.mp hfind col hcol) (by simp)
      · rw [hfind] at hafter
        obtain ⟨v, hv, hrow⟩ := hafter
        exact ⟨first, v, hfind, hv, hrow⟩
    · obtain ⟨v, hv, hrow⟩ := hwritten
      rw [hrow] at hafter
      exact ⟨v, hv, hafter⟩
  · have hwritten := hrow col.name
    unfold Written at hwritten
    rcases hlast : lastFor col.name (written stmt schema valueRow) with _ | expr
    · exact absurd hlast (hall col hcol)
    · rw [hlast] at hwritten
      exact hwritten

/-! ### One row -/

/-- The literal written last for each column, or else the default of its first namesake, is
of a kind that fits the column. -/
def WritesTyped (stmt : InsertStmt) (schema : TableSchema) (valueRow : List Expression) : Prop :=
  ∀ col ∈ schema.columns,
    match lastFor col.name (written stmt schema valueRow) with
    | some (.literal _ type) => KindFits col.type (textKind type)
    | some _ => True
    | none => ∀ first, defaultColumn schema col.name = some first → first.defaultValue ≠ "" →
        KindFits col.type (textKind first.type)

lemma buildRow_of_acceptRow {stmt : InsertStmt} {schema : TableSchema} {rows : List (Row D)}
    {valueRow : List Expression} {newRow : Row D}
    (h : acceptRow stmt schema rows valueRow = .ok newRow) :
    buildRow stmt schema valueRow = .ok newRow := by
  obtain ⟨row, hrow, h⟩ := bind_eq_ok.mp h
  obtain ⟨_, -, h⟩ := bind_eq_ok.mp h
  cases h
  exact hrow

lemma typed_iff_of_buildRow {stmt : InsertStmt} {schema : TableSchema}
    {valueRow : List Expression} {row : Row D} (h : buildRow stmt schema valueRow = .ok row) :
    Typed schema row ↔ WritesTyped stmt schema valueRow := by
  refine forall_congr' fun col => forall_congr' fun hcol => ?_
  have hvalue := buildRow_getElem? h hcol
  rcases hlast : lastFor col.name (written stmt schema valueRow) with _ | expr <;>
    rw [hlast] at hvalue
  · obtain ⟨first, v, hfirst, hdefault, hrow⟩ := hvalue
    simp only [hrow, Option.some_inj, forall_eq', hfirst]
    unfold IsDefault at hdefault
    split_ifs at hdefault with hgiven
    · rw [hasType_iff (valueKind_convertToType hdefault)]
      exact ⟨fun hkind _ => hkind, fun hkind => hkind hgiven⟩
    · rw [hdefault]
      exact iff_of_true (hasType_null _) fun hne => absurd hne hgiven
  · obtain ⟨v, hinserted, hrow⟩ := hvalue
    simp only [hrow, Option.some_inj, forall_eq']
    cases expr with
    | literal value type => exact hasType_iff (valueKind_insertedValue hinserted)
    | _ => cases hinserted

/-- The values that the assignments leave in a row have the types of their columns. -/
def AssignsTyped (stmt : UpdateStmt) (schema : TableSchema) (row : Row D) : Prop :=
  ∀ col ∈ schema.columns, col.name ∈ stmt.assignments.map Prod.fst →
    ∀ v, (settled stmt schema row)[col.name]? = some v → HasType col.type v

lemma forEach_assignTurn_of_notMem {schema : TableSchema} {name : String}
    {assignments : List (String × Expression)} (h : name ∉ assignments.map Prod.fst)
    (row : Row D) :
    (forEach (assignTurn schema) row assignments).state[name]? = row[name]? := by
  induction assignments generalizing row with
  | nil => rfl
  | cons a assignments ih =>
    obtain ⟨hne, hrest⟩ := List.ne_and_not_mem_of_not_mem_cons h
    rw [forEach]
    dsimp only [assignTurn]
    rcases validateColumnExists a.1 schema with e | _
    · rfl
    · dsimp only
      rcases evaluateExpression a.2 row with e | v
      · rfl
      · dsimp only
        rw [ih hrest, getElem?_insert_of_ne _ (Ne.symm hne)]

lemma settled_getElem?_of_notMem {stmt : UpdateStmt} {schema : TableSchema} {name : String}
    (h : name ∉ stmt.assignments.map Prod.fst) (row : Row D) :
    (settled stmt schema row)[name]? = row[name]? := by
  unfold settled
  split
  · exact forEach_assignTurn_of_notMem h row
  · rfl

lemma typed_settled_iff {stmt : UpdateStmt} {schema : TableSchema} {row : Row D}
    (h : Typed schema row) :
    Typed schema (settled stmt schema row) ↔ AssignsTyped stmt schema row := by
  refine ⟨fun hsettled col hcol _ => hsettled col hcol, fun hassigns col hcol v hv => ?_⟩
  by_cases hmem : col.name ∈ stmt.assignments.map Prod.fst
  · exact hassigns col hcol hmem v hv
  · rw [settled_getElem?_of_notMem hmem] at hv
    exact h col hcol v hv

/-! ### Statements and runs -/

def RowsTyped (schema : TableSchema) (rows : List (Row D)) : Prop :=
  ∀ row ∈ rows, Typed schema row

/-- Every stored value has the type of its column. -/
def TablesTyped (db : Database D) : Prop := OfTables RowsTyped db

/-- What is stored has the types of the columns: the literals of every row that an `INSERT`
appends, and the values that an `UPDATE` leaves in every row it gets to. -/
def StoresTyped (db : Database D) : Statement → Prop
  | .insert stmt => db.OnTable stmt.tableName fun table =>
      ∀ (s : List (Row D) × ℕ) valueRow post newRow,
        Passes (insertTurn stmt table.schema) (table.rows, 0) stmt.values s (valueRow :: post) →
        acceptRow stmt table.schema s.1 valueRow = .ok newRow →
          WritesTyped stmt table.schema valueRow
  | .update stmt => db.OnTable stmt.tableName fun table => ∀ (s : List (Row D) × ℕ) row post,
      Passes (updateTurn stmt table.schema) ([], 0) table.rows s (row :: post) →
        AssignsTyped stmt table.schema row
  | _ => True

omit [Doubles D] in
lemma rowsTyped_eq_meets (schema : TableSchema) :
    RowsTyped (D := D) schema = Meets (Typed schema) fun _ _ => True := by
  ext rows
  exact ⟨fun h => ⟨h, List.pairwise_of_forall fun _ _ => trivial⟩, fun h => h.each⟩

omit [Doubles D] in
lemma closed_rowsTyped (schema : TableSchema) : Closed (RowsTyped (D := D) schema) := by
  rw [rowsTyped_eq_meets]
  refine closed_meets (fun col _ v hv => ?_) (fun _ => trivial) fun _ => trivial
  simp at hv

lemma rowsTyped_insertLeaves_iff {stmt : InsertStmt} {schema : TableSchema}
    {rows : List (Row D)} (h : RowsTyped schema rows) :
    RowsTyped schema (insertLeaves stmt schema rows) ↔
      ∀ (s : List (Row D) × ℕ) valueRow post newRow,
        Passes (insertTurn stmt schema) (rows, 0) stmt.values s (valueRow :: post) →
        acceptRow stmt schema s.1 valueRow = .ok newRow → WritesTyped stmt schema valueRow := by
  rw [rowsTyped_eq_meets] at h ⊢
  rw [meets_insertLeaves_iff h]
  have hrow {s : List (Row D)} {valueRow : List Expression} {newRow : Row D}
      (haccept : acceptRow stmt schema s valueRow = .ok newRow) :
      Typed schema newRow ↔ WritesTyped stmt schema valueRow :=
    typed_iff_of_buildRow (buildRow_of_acceptRow haccept)
  exact ⟨fun happ s valueRow post newRow hpasses haccept =>
      (hrow haccept).mp (happ s valueRow post hpasses newRow haccept).1,
    fun hwrites s valueRow post hpasses newRow haccept =>
      ⟨(hrow haccept).mpr (hwrites s valueRow post newRow hpasses haccept), fun _ _ => trivial⟩⟩

lemma rowsTyped_updateLeaves_iff {stmt : UpdateStmt} {schema : TableSchema}
    {rows : List (Row D)} (h : RowsTyped schema rows) :
    RowsTyped schema (updateLeaves stmt schema rows) ↔
      ∀ (s : List (Row D) × ℕ) row post,
        Passes (updateTurn stmt schema) ([], 0) rows s (row :: post) →
          AssignsTyped stmt schema row := by
  refine (forall_updateLeaves_iff h).trans ?_
  refine forall_congr' fun s => forall_congr' fun row => forall_congr' fun post =>
    forall_congr' fun hpasses => typed_settled_iff (h row ?_)
  exact hpasses.suffix.subset List.mem_cons_self

/-- **One statement** keeps the types exactly when it meets the condition. -/
theorem tablesTyped_step_iff {db : Database D} (h : TablesTyped db) (stmt : Statement) :
    TablesTyped (step db stmt) ↔ StoresTyped db stmt := by
  refine (ofTables_execute_iff closed_rowsTyped h stmt).trans ?_
  cases stmt with
  | insert stmt =>
    exact Database.onTable_congr fun table htable => rowsTyped_insertLeaves_iff (h _ _ htable)
  | update stmt =>
    exact Database.onTable_congr fun table htable => rowsTyped_updateLeaves_iff (h _ _ htable)
  | _ => exact Iff.rfl

/-- **When stored values have the types of their columns after every statement of a run**:
exactly when the literals that its `INSERT`s store are of types that fit the columns, and so
are the values that its `UPDATE`s assign. -/
theorem always_tablesTyped_iff (D : Type) [Doubles D] (stmts : List Statement) :
    Always step TablesTyped ({} : Database D) stmts ↔
      Along step StoresTyped ({} : Database D) stmts :=
  always_ofTables_iff (fun _ stmt h => tablesTyped_step_iff h stmt) stmts

/-- A number in an `INT` column is stored as text. -/
theorem not_always_tablesTyped : ¬ Always step TablesTyped ({} : Database ℚ)
    [.createTable ⟨"t", [{ name := "a", type := .INT }]⟩,
      .insert { tableName := "t", values := [[.literal "1" .NUMBER]] }] := by
  intro h
  have htyped := h _ [] (List.append_nil _).symm "t"
  revert htyped
  generalize hdb : run step ({} : Database ℚ) _ = db
  have htext : (db.tables["t"]?.any fun table =>
      (table.schema.columns.any fun col => col.name = "a" && col.type = .INT) &&
        table.rows.any fun row => row["a"]? = some (.string "1")) = true := by
    rw [← hdb]
    decide
  intro htyped
  rcases htable : db.tables["t"]? with _ | table <;> rw [htable] at htext
  · cases htext
  obtain ⟨hcols, hrows⟩ := Bool.and_eq_true_iff.mp htext
  obtain ⟨col, hcol, hname⟩ := List.any_eq_true.mp hcols
  obtain ⟨row, hrow, hvalue⟩ := List.any_eq_true.mp hrows
  obtain ⟨hname, htype⟩ := Bool.and_eq_true_iff.mp hname
  have hint := htyped table htable row hrow col hcol (.string "1")
    (by rw [of_decide_eq_true hname]; exact of_decide_eq_true hvalue)
  rw [of_decide_eq_true htype] at hint
  cases hint .int rfl rfl

end Dbx4.SqlTypes
