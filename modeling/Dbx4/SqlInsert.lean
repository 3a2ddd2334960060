import Mathlib.Data.List.Forall2
import Dbx4.SqlSchema
import Dbx4.SqlTypes
import Dbx4.SqlUpdate

/-!
What an `INSERT` makes of its lists of values.

A row is built by assignments whose right-hand sides do not look at the row. So the order in
which a statement lists its columns does not matter; a literal is stored as the conversion to
the type of its token gives it, which for `NULL` is a text; and a default that is left out is
converted to the type of its column, while one that is written out stays a text.
-/

namespace Dbx4.SqlInsert

open Std Dbx4.Assign Dbx4.ForEach Dbx4.Maps Dbx4.Runs Dbx4.SqlAst Dbx4.SqlValue Dbx4.SqlEval
open Dbx4.SqlExec Dbx4.SqlConstraints Dbx4.SqlSchema Dbx4.SqlTypes Dbx4.SqlUpdate

variable {D : Type} [Doubles D]

/-! ### Building a row -/

/-- The assignments of a list of values. -/
abbrev assignValues (ws : List (String × Expression)) (row : Row D) : Except Throw (Row D) :=
  assignAll (fun expr _ => insertedValue expr) ws row

lemma foldlM_eq_assignValues {f : Row D → String × Expression → Except Throw (Row D)}
    {ws : List (String × Expression)}
    (hf : ∀ w ∈ ws, ∀ row, f row w = do return row.insert w.1 (← insertedValue w.2))
    (row : Row D) : ws.foldlM f row = assignValues ws row := by
  induction ws generalizing row with
  | nil => rfl
  | cons w ws ih =>
    obtain ⟨hw, hws⟩ := List.forall_mem_cons.mp hf
    rw [List.foldlM_cons, hw, assignValues, assignAll]
    rcases insertedValue (D := D) w.2 with e | v
    · rfl
    · exact ih hws _

lemma buildRow_of_mismatch {stmt : InsertStmt} {schema : TableSchema} {valueRow : List Expression}
    (h : valueRow.length ≠ (if stmt.columns ≠ [] then stmt.columns.length
      else schema.columns.length)) :
    buildRow (D := D) stmt schema valueRow = .error (countMismatch
      (if stmt.columns ≠ [] then stmt.columns.length else schema.columns.length)
      valueRow.length) := by
  unfold buildRow
  by_cases hcols : stmt.columns ≠ []
  · rw [if_pos hcols] at h ⊢
    rw [if_pos hcols, if_pos h]
    rfl
  · rw [if_neg hcols] at h ⊢
    rw [if_neg hcols, if_pos h]
    rfl

lemma buildRow_positional (schema : TableSchema) {stmt : InsertStmt} {valueRow : List Expression}
    (hcols : stmt.columns = []) (hlength : valueRow.length = schema.columns.length) :
    buildRow (D := D) stmt schema valueRow =
      assignValues ((schema.columns.map ColumnDef.name).zip valueRow) ∅ := by
  have hnames : (schema.columns.map ColumnDef.name).zip valueRow =
      (schema.columns.zip valueRow).map fun w => (w.1.name, w.2) := List.zip_map_left
  unfold buildRow
  rw [if_neg (not_not.mpr hcols), if_neg (not_not.mpr hlength), hnames,
    ← foldlM_eq_assignValues (f := fun newRow w => do
      return newRow.insert w.1 (← insertedValue w.2)) fun _ _ _ => rfl, List.foldlM_map]

lemma buildRow_listed {stmt : InsertStmt} {schema : TableSchema} {valueRow : List Expression}
    (hcols : stmt.columns ≠ []) (hlength : valueRow.length = stmt.columns.length)
    (hknown : ∀ colName ∈ stmt.columns, colName ∈ schema.columnIndex) :
    buildRow (D := D) stmt schema valueRow =
      (assignValues (stmt.columns.zip valueRow) ∅ >>= fun newRow =>
        schema.columns.foldlM addDefault newRow) := by
  unfold buildRow
  rw [if_pos hcols, if_neg (not_not.mpr hlength), ← foldlM_eq_assignValues]
  intro w hw row
  have hcol : validateColumnExists w.1 schema = .ok () :=
    validateColumnExists_eq_ok.mpr (hknown w.1 (List.of_mem_zip hw).1)
  dsimp only
  rw [hcol]
  rfl

lemma foldlM_error {α β : Type} {f : β → α → Except Throw β} {a : α} {as : List α} (ha : a ∈ as)
    (hf : ∀ b, ∃ e, f b a = .error e) (b : β) : ∃ e, as.foldlM f b = .error e := by
  induction as generalizing b with
  | nil => cases ha
  | cons a' as ih =>
    rw [List.foldlM_cons]
    rcases hb : f b a' with e | b'
    · exact ⟨e, rfl⟩
    · rcases List.mem_cons.mp ha with rfl | ha
      · obtain ⟨e, he⟩ := hf b
        rw [he] at hb
        cases hb
      · exact ih ha b'

lemma buildRow_of_unknown {stmt : InsertStmt} {schema : TableSchema} {valueRow : List Expression}
    {colName : String} (hcol : colName ∈ stmt.columns) (hunknown : colName ∉ schema.columnIndex) :
    ∃ e, buildRow (D := D) stmt schema valueRow = .error e := by
  have hcols : stmt.columns ≠ [] := List.ne_nil_of_mem hcol
  by_cases hlength : valueRow.length = stmt.columns.length
  · have hmem : colName ∈ (stmt.columns.zip valueRow).map Prod.fst := by
      rwa [List.map_fst_zip hlength.ge]
    obtain ⟨w, hw, rfl⟩ := List.mem_map.mp hmem
    unfold buildRow
    rw [if_pos hcols, if_neg (not_not.mpr hlength)]
    obtain ⟨e, he⟩ := foldlM_error (f := fun (newRow : Row D) (w : String × Expression) => do
      validateColumnExists w.1 schema
      return newRow.insert w.1 (← insertedValue w.2)) hw (fun row => by
        rw [validateColumnExists, if_neg hunknown]
        exact ⟨_, rfl⟩) ∅
    exact ⟨e, congrArg (· >>= fun newRow => schema.columns.foldlM addDefault newRow) he⟩
  · refine ⟨_, buildRow_of_mismatch ?_⟩
    rwa [if_pos hcols]

/-! ### Values of a new row -/

lemma isNull_insertedValue {expr : Expression} {v : Value D} (h : insertedValue expr = .ok v) :
    v.isNull = false := by
  cases expr with
  | literal value type =>
    have hkind := valueKind_insertedValue h
    cases v with
    | null => cases hkind
    | _ => rfl
  | _ => cases h

/-- A literal number, like a literal text, is stored as its text. -/
lemma insertedValue_text {text : String} {type : TokenType}
    (htype : type = .NUMBER ∨ type = .STRING) :
    insertedValue (D := D) (.literal text type) = .ok (.string text) := by
  rcases htype with rfl | rfl <;> rfl

/-- What has been assigned is no null. -/
lemma isNullAt_assignValues {ws : List (String × Expression)} {m row : Row D}
    (h : assignValues ws m = .ok row) {colName : String} (hm : isNullAt m colName = false) :
    isNullAt row colName = false := by
  induction ws generalizing m with
  | nil =>
    cases h
    exact hm
  | cons w ws ih =>
    obtain ⟨v, hv, h⟩ := assignAll_cons_eq_ok.mp h
    refine ih h ?_
    unfold isNullAt
    by_cases hcol : w.1 = colName
    · rw [hcol, ExtTreeMap.getElem?_insert_self]
      exact isNull_insertedValue hv
    · rw [getElem?_insert_of_ne _ hcol]
      exact hm

/-- A row that is built of values alone is accepted in an empty table. -/
lemma acceptRow_of_assignValues {stmt : InsertStmt} {schema : TableSchema}
    {valueRow : List Expression} {ws : List (String × Expression)} {row : Row D}
    (hbuild : buildRow stmt schema valueRow = .ok row) (hassign : assignValues ws ∅ = .ok row) :
    acceptRow stmt schema [] valueRow = .ok row := by
  have hnull (colName : String) : isNullAt row colName = false := by
    refine isNullAt_assignValues hassign ?_
    simp [isNullAt]
  have hfits : Fits schema row [] := ⟨fun colName _ => hnull colName, by simp⟩
  rw [acceptRow, hbuild, ok_bind, validateRow_eq_ok.mpr hfits]
  rfl

/-! ### Two statements -/

/-- The same result, up to the text of an error, and the same database. -/
def SameEffect (r r' : Option (QueryResult D) × Database D) : Prop :=
  (r.1.map fun result => { result with errorMessage := "" }) =
    (r'.1.map fun result => { result with errorMessage := "" }) ∧ r.2 = r'.2

variable (D) in
/-- Two lists of values of which a row is built alike, if at all. -/
def Alike (schema : TableSchema) (stmt stmt' : InsertStmt) (valueRow valueRow' : List Expression) :
    Prop :=
  ∀ row : Row D, buildRow stmt schema valueRow = .ok row ↔ buildRow stmt' schema valueRow' = .ok row

lemma acceptRow_eq_ok {stmt : InsertStmt} {schema : TableSchema} {rows : List (Row D)}
    {valueRow : List Expression} {row : Row D} :
    acceptRow stmt schema rows valueRow = .ok row ↔
      buildRow stmt schema valueRow = .ok row ∧ validateRow row schema rows = .ok () := by
  refine ⟨fun h => ⟨buildRow_of_acceptRow h, acceptRow_ok h⟩, fun ⟨hbuild, hvalid⟩ => ?_⟩
  rw [acceptRow, hbuild, ok_bind, hvalid]
  rfl

lemma insertTurn_of_alike {schema : TableSchema} {stmt stmt' : InsertStmt}
    {valueRow valueRow' : List Expression} (h : Alike D schema stmt stmt' valueRow valueRow')
    (s : List (Row D) × ℕ) (rest rest' : List (List Expression)) :
    (insertTurn stmt schema s valueRow rest).1.isSome =
        (insertTurn stmt' schema s valueRow' rest').1.isSome ∧
      (insertTurn stmt schema s valueRow rest).2 =
        (insertTurn stmt' schema s valueRow' rest').2 := by
  have haccept (row : Row D) : acceptRow stmt schema s.1 valueRow = .ok row ↔
      acceptRow stmt' schema s.1 valueRow' = .ok row := by
    rw [acceptRow_eq_ok, acceptRow_eq_ok, h row]
  unfold insertTurn
  dsimp only
  rcases hrow : acceptRow stmt schema s.1 valueRow with e | row
  · rcases hrow' : acceptRow stmt' schema s.1 valueRow' with e' | row'
    · exact ⟨rfl, rfl⟩
    · have := (haccept row').mpr hrow'
      rw [hrow] at this
      cases this
  · rw [(haccept row).mp hrow]
    exact ⟨rfl, rfl⟩

/-- **Two inserts** of rows that are built alike have the same effect. -/
theorem execute_insert_alike {db : Database D} {table : Table D} {stmt stmt' : InsertStmt}
    (hname : stmt'.tableName = stmt.tableName)
    (htable : db.tables[stmt.tableName]? = some table)
    (h : List.Forall₂ (Alike D table.schema stmt stmt') stmt.values stmt'.values) :
    SameEffect (execute db (.insert stmt)) (execute db (.insert stmt')) := by
  by_cases hempty : stmt.tableName = ""
  · have hempty' : stmt'.tableName = "" := hname.trans hempty
    simp only [execute, executeInsert, if_pos hempty, if_pos hempty']
    exact ⟨rfl, rfl⟩
  · obtain ⟨hthrown, hstate⟩ := forEach_forall₂
      (T := fun o o' : Option Throw => o.isSome = o'.isSome) rfl (fun _ _ h => h)
      (fun s valueRow valueRow' rest rest' hrow => insertTurn_of_alike hrow s rest rest')
      h (table.rows, 0)
    rw [execute_insert hempty htable, execute_insert (hname ▸ hempty) (hname ▸ htable), hstate]
    generalize (forEach (insertTurn stmt table.schema) (table.rows, 0) stmt.values).thrown = o
      at hthrown ⊢
    generalize (forEach (insertTurn stmt' table.schema) (table.rows, 0) stmt'.values).thrown = o'
      at hthrown ⊢
    refine ⟨?_, by rw [hname]⟩
    rcases o with _ | e <;> rcases o' with _ | e'
    · rfl
    · cases hthrown
    · cases hthrown
    · rfl

/-- Rows that are built alike, errors included. -/
lemma execute_insert_eq {db : Database D} {table : Table D} {stmt stmt' : InsertStmt}
    (hname : stmt'.tableName = stmt.tableName)
    (htable : db.tables[stmt.tableName]? = some table)
    (h : List.Forall₂ (fun valueRow valueRow' => buildRow (D := D) stmt table.schema valueRow =
      buildRow stmt' table.schema valueRow') stmt.values stmt'.values) :
    execute db (.insert stmt) = execute db (.insert stmt') := by
  by_cases hempty : stmt.tableName = ""
  · have hempty' : stmt'.tableName = "" := hname.trans hempty
    simp only [execute, executeInsert, if_pos hempty, if_pos hempty']
  · have hturn (s : List (Row D) × ℕ) (valueRow valueRow' : List Expression)
        (rest rest' : List (List Expression))
        (hrow : buildRow (D := D) stmt table.schema valueRow =
          buildRow stmt' table.schema valueRow') :
        (insertTurn stmt table.schema s valueRow rest).1 =
            (insertTurn stmt' table.schema s valueRow' rest').1 ∧
          (insertTurn stmt table.schema s valueRow rest).2 =
            (insertTurn stmt' table.schema s valueRow' rest').2 := by
      simp only [insertTurn, acceptRow, hrow, and_self]
    obtain ⟨hthrown, hstate⟩ := forEach_forall₂ (T := fun o o' : Option Throw => o = o') rfl
      (fun _ _ h => congrArg Option.isSome h) hturn h (table.rows, 0)
    rw [execute_insert hempty htable, execute_insert (hname ▸ hempty) (hname ▸ htable), hstate,
      hthrown, hname]

/-! ### Literals -/

variable (D) in
/-- Every row that is inserted with the literal written last for the column has the value
there. -/
def InsertStores (schema : TableSchema) (colName : String) (literal : Expression) (v : Value D) :
    Prop :=
  ∀ (stmt : InsertStmt) (s s' : List (Row D) × ℕ) valueRow rest,
    lastFor colName (written stmt schema valueRow) = some literal →
    insertTurn stmt schema s valueRow rest = (none, s') →
      ∃ newRow, s'.1 = s.1 ++ [newRow] ∧ newRow[colName]? = some v

/-- Every row that is updated by assigning the literal to the column has the value there. -/
def UpdateStores (schema : TableSchema) (colName : String) (literal : Expression) (v : Value D) :
    Prop :=
  ∀ (stmt : UpdateStmt) (s s' : List (Row D) × ℕ) row after,
    stmt.assignments = [(colName, literal)] → selects stmt.whereClause row = .ok true →
    updateTurn stmt schema s row after = (none, s') →
      ∃ newRow, s'.1 = s.1 ++ [newRow] ∧ newRow[colName]? = some v

/-- No row is inserted with the literal written last for the column, or updated to it. -/
structure Refuses (D : Type) [Doubles D] (schema : TableSchema) (colName : String)
    (literal : Expression) : Prop where
  insert : ∀ (stmt : InsertStmt) (s : List (Row D) × ℕ) valueRow rest,
    lastFor colName (written stmt schema valueRow) = some literal →
      (insertTurn stmt schema s valueRow rest).1.isSome
  update : ∀ (stmt : UpdateStmt) (s : List (Row D) × ℕ) row after,
    stmt.assignments = [(colName, literal)] → selects stmt.whereClause row = .ok true →
      (updateTurn stmt schema s row after).1.isSome

/-- `INSERT` and `UPDATE` store what the literal evaluates to, and refuse a `NULL` where none
may be. -/
structure StoredAlike (D : Type) [Doubles D] (name : String) (columns : List ColumnDef)
    (col : ColumnDef) (text : String) (type : TokenType) : Prop where
  stores : ∃ v : Value D, (∀ row, evaluateExpression (.literal text type) row = .ok v) ∧
    InsertStores D (.ofColumns name columns) col.name (.literal text type) v ∧
    UpdateStores (.ofColumns name columns) col.name (.literal text type) v
  refused : type = .NULL_KEYWORD → col.notNull = true →
    Refuses D (.ofColumns name columns) col.name (.literal text type)

lemma insertStores_of_inserted {schema : TableSchema} {col : ColumnDef} {literal : Expression}
    {v : Value D} (hcol : col ∈ schema.columns) (hv : insertedValue literal = .ok v) :
    InsertStores D schema col.name literal v := by
  intro stmt s s' valueRow rest hlast hturn
  obtain ⟨newRow, haccept, rfl⟩ := insertTurn_ok hturn
  refine ⟨newRow, rfl, ?_⟩
  have hvalue := buildRow_getElem? (buildRow_of_acceptRow haccept) hcol
  rw [hlast] at hvalue
  obtain ⟨w, hw, hrow⟩ := hvalue
  rw [hv] at hw
  cases hw
  exact hrow

lemma updateStores_of_evaluated {schema : TableSchema} {colName : String} {literal : Expression}
    {v : Value D} (hv : ∀ row, evaluateExpression literal row = .ok v) :
    UpdateStores schema colName literal v := by
  intro stmt s s' row after hassign hsel hturn
  obtain ⟨-, hrows⟩ := updateTurn_of_none (congrArg Prod.fst hturn)
  rw [hturn] at hrows
  cases hrows
  have hmatch : isMatch stmt row = true := by rw [isMatch, hsel]
  have hassigned : assignAll evaluateExpression stmt.assignments row =
      .ok (row.insert colName v) := by
    rw [hassign]
    exact assignAll_cons_eq_ok.mpr ⟨v, hv row, rfl⟩
  refine ⟨updatedRow stmt row, rfl, ?_⟩
  rw [updatedRow_of_match hmatch hassigned, ExtTreeMap.getElem?_insert_self]

/-- A number or a text is stored as its text, on both ways. -/
lemma storedAlike_of_text {name text : String} {columns : List ColumnDef} {col : ColumnDef}
    {type : TokenType} (hcol : col ∈ columns) (htype : type = .NUMBER ∨ type = .STRING) :
    StoredAlike D name columns col text type := by
  have hnull : type ≠ .NULL_KEYWORD := by rcases htype with rfl | rfl <;> simp
  have heval (row : Row D) : evaluateExpression (.literal text type) row = .ok (.string text) := by
    rw [evaluateExpression, if_neg hnull]
  have hmem : col ∈ (TableSchema.ofColumns name columns).columns := by rwa [columns_ofColumns]
  exact ⟨⟨.string text, heval, insertStores_of_inserted hmem (insertedValue_text htype),
    updateStores_of_evaluated heval⟩, fun h => absurd h hnull⟩

lemma mem_of_lastFor {name : String} {ws : List (String × Expression)} {expr : Expression}
    (h : lastFor name ws = some expr) : (name, expr) ∈ ws := by
  induction ws with
  | nil => cases h
  | cons w ws ih =>
    rw [lastFor] at h
    rcases hlast : lastFor name ws with _ | last <;> rw [hlast] at h
    · dsimp only at h
      split_ifs at h with hname
      cases h
      rw [← hname]
      exact List.mem_cons_self
    · cases h
      exact List.mem_cons_of_mem _ (ih hlast)

/-- Where all columns get the same expression, each one does. -/
lemma lastFor_zip_replicate {name : String} {names : List String} (h : name ∈ names)
    (expr : Expression) :
    lastFor name (names.zip (List.replicate names.length expr)) = some expr := by
  have hmem : name ∈ (names.zip (List.replicate names.length expr)).map Prod.fst := by
    rwa [List.map_fst_zip List.length_replicate.ge]
  obtain ⟨last, hlast⟩ := Option.ne_none_iff_exists'.mp (lastFor_ne_none hmem)
  rw [hlast, List.eq_of_mem_replicate (List.of_mem_zip (mem_of_lastFor hlast)).2]

/-- A `NULL` is inserted as its text. -/
lemma exists_insert_null (name : String) {columns : List ColumnDef} {col : ColumnDef}
    (hcol : col ∈ columns) (text : String) :
    ∃ (stmt : InsertStmt) (s' : List (Row D) × ℕ) (valueRow : List Expression) (newRow : Row D),
      lastFor col.name (written stmt (.ofColumns name columns) valueRow) =
        some (.literal text .NULL_KEYWORD) ∧
      insertTurn stmt (.ofColumns name columns) ([], 0) valueRow [] = (none, s') ∧
      s'.1 = [newRow] ∧ newRow[col.name]? = some (.string text) := by
  set schema := TableSchema.ofColumns name columns with hschema
  set literal := Expression.literal text .NULL_KEYWORD
  set stmt : InsertStmt := { tableName := name, values := [] }
  set valueRow := List.replicate (columns.map ColumnDef.name).length literal
  have hlength : valueRow.length = schema.columns.length := by
    rw [List.length_replicate, List.length_map, hschema, columns_ofColumns]
  have hconvert : insertedValue (D := D) literal = .ok (.string text) := rfl
  have hlast : lastFor col.name (written stmt schema valueRow) = some literal := by
    rw [written, if_neg (not_not.mpr rfl), hschema, columns_ofColumns]
    exact lastFor_zip_replicate (List.mem_map_of_mem hcol) literal
  obtain ⟨newRow, hassign⟩ : ∃ newRow : Row D,
      assignValues ((schema.columns.map ColumnDef.name).zip valueRow) ∅ = .ok newRow := by
    refine ⟨_, assignAll_const_of_ok (fun w hw => ⟨.string text, ?_⟩) ∅⟩
    rw [List.eq_of_mem_replicate (List.of_mem_zip hw).2, hconvert]
  have hbuild : buildRow stmt schema valueRow = .ok newRow :=
    (buildRow_positional schema rfl hlength).trans hassign
  have haccept := acceptRow_of_assignValues hbuild hassign
  refine ⟨stmt, ([newRow], 1), valueRow, newRow, hlast, ?_, rfl, ?_⟩
  · rw [insertTurn, haccept]
    rfl
  · have hmem : col ∈ schema.columns := by rwa [hschema, columns_ofColumns]
    have hvalue := buildRow_getElem? hbuild hmem
    rw [hlast] at hvalue
    obtain ⟨v, hv, hrow⟩ := hvalue
    cases hconvert.symm.trans hv
    exact hrow

/-- **When `INSERT` and `UPDATE` store a literal alike**: when it is not `NULL`. -/
theorem storedAlike_iff {columns : List ColumnDef} {col : ColumnDef} (hcol : col ∈ columns)
    {type : TokenType} (htype : type = .NUMBER ∨ type = .STRING ∨ type = .NULL_KEYWORD)
    (name text : String) : StoredAlike D name columns col text type ↔ type ≠ .NULL_KEYWORD := by
  refine ⟨fun h hnull => ?_, fun hnull => ?_⟩
  · subst hnull
    obtain ⟨v, heval, hinsert, -⟩ := h.stores
    obtain ⟨stmt, s', valueRow, newRow, hlast, hturn, hrows, hvalue⟩ :=
      exists_insert_null (D := D) name hcol text
    obtain ⟨newRow', hrows', hvalue'⟩ := hinsert stmt _ s' valueRow [] hlast hturn
    rw [hrows] at hrows'
    cases hrows'
    rw [hvalue] at hvalue'
    cases hvalue'
    cases heval ∅
  · refine storedAlike_of_text hcol ?_
    rcases htype with h | h | h
    · exact Or.inl h
    · exact Or.inr h
    · exact absurd h hnull

/-- The columns of a table. -/
def twoColumns : List ColumnDef :=
  [{ name := "a", type := .INT, notNull := true }, { name := "b", type := .TEXT, unique := true }]

theorem storedAlike_number :
    StoredAlike ℚ "t" twoColumns { name := "b", type := .TEXT, unique := true } "1" .NUMBER :=
  (storedAlike_iff (List.mem_cons_of_mem _ List.mem_cons_self) (Or.inl rfl) "t" "1").mpr (by decide)

/-- `NULL` is inserted into a `NOT NULL` column, as a text. -/
theorem not_storedAlike_null :
    ¬ StoredAlike ℚ "t" twoColumns { name := "a", type := .INT, notNull := true } "NULL"
      .NULL_KEYWORD := by
  intro h
  have hrefused := (h.refused rfl rfl).insert { tableName := "t", values := [] } ([], 0)
    [.literal "NULL" .NULL_KEYWORD, .literal "x" .STRING] [] rfl
  revert hrefused
  decide

/-! ### The order of the columns -/

lemma foldlM_addDefault_of_mem {columns : List ColumnDef} {row : Row D}
    (h : ∀ col ∈ columns, col.name ∈ row) : columns.foldlM addDefault row = .ok row := by
  induction columns with
  | nil => rfl
  | cons col columns ih =>
    obtain ⟨hcol, hcolumns⟩ := List.forall_mem_cons.mp h
    rw [List.foldlM_cons, addDefault, if_pos hcol]
    exact ih hcolumns

/-- A list of values, and the same list in the order of other names. -/
def Permuted (names names' : List String) (valueRow valueRow' : List Expression) : Prop :=
  valueRow'.length = valueRow.length ∧
    (valueRow.length = names.length → (names'.zip valueRow').Perm (names.zip valueRow))

/-- A row with a value for every column is built of its values alone. -/
lemma buildRow_allListed {stmt : InsertStmt} {schema : TableSchema} {valueRow : List Expression}
    (hcols : stmt.columns ≠ []) (hlength : valueRow.length = stmt.columns.length)
    (hknown : ∀ colName ∈ stmt.columns, colName ∈ schema.columnIndex)
    (hall : ∀ col ∈ schema.columns, col.name ∈ stmt.columns) :
    buildRow (D := D) stmt schema valueRow = assignValues (stmt.columns.zip valueRow) ∅ := by
  rw [buildRow_listed hcols hlength hknown]
  rcases hassign : assignValues (D := D) (stmt.columns.zip valueRow) ∅ with e | row
  · rfl
  · refine foldlM_addDefault_of_mem fun col hcol => mem_assignAll (Or.inl ?_) hassign
    rw [List.map_fst_zip hlength.ge]
    exact hall col hcol

section Permuted

variable {stmt stmt' : InsertStmt} {columns : List ColumnDef}
  {valueRow valueRow' : List Expression}

lemma buildRow_of_permuted_mismatch (name : String) (hpos : stmt.columns = [])
    (hperm : stmt'.columns.Perm (columns.map ColumnDef.name))
    (hlength : valueRow'.length = valueRow.length) (h : valueRow.length ≠ columns.length) :
    buildRow (D := D) stmt (.ofColumns name columns) valueRow =
        .error (countMismatch columns.length valueRow.length) ∧
      buildRow (D := D) stmt' (.ofColumns name columns) valueRow' =
        .error (countMismatch columns.length valueRow.length) := by
  have hnames : stmt'.columns.length = columns.length := by simpa using hperm.length_eq
  have hexpected : (if stmt.columns ≠ [] then stmt.columns.length
      else (TableSchema.ofColumns name columns).columns.length) = columns.length := by simp [hpos]
  have hexpected' : (if stmt'.columns ≠ [] then stmt'.columns.length
      else (TableSchema.ofColumns name columns).columns.length) = columns.length := by
    simp [hnames]
  refine ⟨?_, ?_⟩
  · rw [buildRow_of_mismatch (by rwa [hexpected]), hexpected]
  · rw [buildRow_of_mismatch (by rwa [hexpected', hlength]), hexpected', hlength]

lemma alike_of_permuted (name : String) (hnodup : (columns.map ColumnDef.name).Nodup)
    (hpos : stmt.columns = []) (hperm : stmt'.columns.Perm (columns.map ColumnDef.name))
    (hrow : Permuted (columns.map ColumnDef.name) stmt'.columns valueRow valueRow') :
    Alike D (.ofColumns name columns) stmt' stmt valueRow' valueRow := by
  obtain ⟨hlength, hzip⟩ := hrow
  by_cases hmatch : valueRow.length = columns.length
  · have hpositional := buildRow_positional (D := D) (.ofColumns name columns) hpos
      (by rwa [columns_ofColumns])
    rw [columns_ofColumns] at hpositional
    have hnames : valueRow.length = (columns.map ColumnDef.name).length := by
      rwa [List.length_map]
    have hlisted : buildRow (D := D) stmt' (.ofColumns name columns) valueRow' =
        assignValues (stmt'.columns.zip valueRow') ∅ := by
      by_cases hcols : stmt'.columns = []
      · have hnone : columns = [] := by
          rw [hcols] at hperm
          exact List.map_eq_nil_iff.mp hperm.nil_eq.symm
        subst hnone
        have hempty : valueRow' = [] := by
          rw [← List.length_eq_zero_iff, hlength, hmatch, List.length_nil]
        rw [buildRow_positional _ hcols (by simp [hempty]), hempty, List.zip_nil_right,
          List.zip_nil_right]
      · refine buildRow_allListed hcols ?_ ?_ ?_
        · rw [hlength, hnames, hperm.length_eq]
        · intro colName hcol
          obtain ⟨col, hmem, rfl⟩ := List.mem_map.mp (hperm.mem_iff.mp hcol)
          exact mem_columnIndex_ofColumns.mpr ⟨col, hmem, rfl⟩
        · intro col hcol
          rw [columns_ofColumns] at hcol
          exact hperm.mem_iff.mpr (List.mem_map_of_mem hcol)
    intro row
    rw [hpositional, hlisted]
    refine assignAll_const_perm ?_ (hzip hnames) ∅ row
    rwa [List.map_fst_zip hnames.ge]
  · obtain ⟨hpositional, hlisted⟩ :=
      buildRow_of_permuted_mismatch (D := D) name hpos hperm hlength hmatch
    intro row
    rw [hpositional, hlisted]

/-- Where every literal converts, also the errors are the same. -/
lemma buildRow_eq_of_permuted (name : String)
    (hnodup : (columns.map ColumnDef.name).Nodup) (hpos : stmt.columns = [])
    (hperm : stmt'.columns.Perm (columns.map ColumnDef.name))
    (hrow : Permuted (columns.map ColumnDef.name) stmt'.columns valueRow valueRow')
    (hvalues : ∀ expr ∈ valueRow, ∃ v : Value D, insertedValue expr = .ok v) :
    buildRow (D := D) stmt' (.ofColumns name columns) valueRow' =
      buildRow stmt (.ofColumns name columns) valueRow := by
  by_cases hmatch : valueRow.length = columns.length
  · have hpositional := buildRow_positional (D := D) (.ofColumns name columns) hpos
      (by rwa [columns_ofColumns])
    have hbuilds : ∃ row : Row D, buildRow stmt (.ofColumns name columns) valueRow = .ok row := by
      refine ⟨_, hpositional.trans (assignAll_const_of_ok (fun w hw => ?_) ∅)⟩
      exact hvalues w.2 (List.of_mem_zip hw).2
    obtain ⟨row, hbuild⟩ := hbuilds
    rw [hbuild, alike_of_permuted name hnodup hpos hperm hrow row, hbuild]
  · obtain ⟨hpositional, hlisted⟩ :=
      buildRow_of_permuted_mismatch (D := D) name hpos hperm hrow.1 hmatch
    rw [hpositional, hlisted]

end Permuted

/-- **The order in which an `INSERT` lists all columns** does not matter: it does what the
positional one does, to the text of an error where every literal converts. -/
theorem insert_permuted {columns : List ColumnDef} (hnodup : (columns.map ColumnDef.name).Nodup)
    {db : Database D} {tableName name : String} {rows : List (Row D)}
    (htable : db.tables[tableName]? =
      some { schema := .ofColumns name columns, rows := rows })
    {names : List String} (hperm : names.Perm (columns.map ColumnDef.name))
    {values values' : List (List Expression)}
    (hvalues : List.Forall₂ (Permuted (columns.map ColumnDef.name) names) values values') :
    SameEffect
        (execute db (.insert { tableName := tableName, columns := names, values := values' }))
        (execute db (.insert { tableName := tableName, values := values })) ∧
      ((∀ valueRow ∈ values, ∀ expr ∈ valueRow, ∃ v : Value D, insertedValue expr = .ok v) →
        execute db (.insert { tableName := tableName, columns := names, values := values' }) =
          execute db (.insert { tableName := tableName, values := values })) := by
  refine ⟨execute_insert_alike rfl htable ?_, fun hconvert => execute_insert_eq rfl htable ?_⟩
  · exact hvalues.flip.imp fun valueRow' valueRow hrow =>
      alike_of_permuted name hnodup rfl hperm hrow
  · refine ((List.forall₂_and_left _ _).mpr ⟨hconvert, hvalues⟩).flip.imp ?_
    exact fun valueRow' valueRow hrow =>
      buildRow_eq_of_permuted name hnodup rfl hperm hrow.2 hrow.1

def twoColumnsDb : Database ℚ := emptyTable ℚ "t" (.ofColumns "t" twoColumns)

/-- `INSERT INTO t (b, a) VALUES ('x', 1)`, and the same by position. -/
theorem insert_permuted_twoColumns : SameEffect
    (execute twoColumnsDb (.insert {
      tableName := "t"
      columns := ["b", "a"]
      values := [[.literal "x" .STRING, .literal "1" .NUMBER]] }))
    (execute twoColumnsDb (.insert {
      tableName := "t"
      values := [[.literal "1" .NUMBER, .literal "x" .STRING]] })) := by
  have htable : twoColumnsDb.tables["t"]? =
      some { schema := .ofColumns "t" twoColumns, rows := [] } := rfl
  refine (insert_permuted (by decide) htable (List.Perm.swap _ _ _) ?_).1
  exact .cons ⟨rfl, fun _ => List.Perm.swap _ _ _⟩ .nil

end Dbx4.SqlInsert
