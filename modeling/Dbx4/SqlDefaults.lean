import Dbx4.SqlInsert

/-!
Columns that an `INSERT` leaves to their defaults.

A default is converted to the type of its column; the same text written out as a literal stays
a text. So leaving the column out and writing its default are the same only for a column whose
type makes no number and no truth value of a text.
-/

namespace Dbx4.SqlDefaults

open Std Dbx4.Assign Dbx4.ForEach Dbx4.Maps Dbx4.Runs Dbx4.SqlAst Dbx4.SqlValue Dbx4.SqlEval
open Dbx4.SqlExec Dbx4.SqlConstraints Dbx4.SqlSchema Dbx4.SqlTypes Dbx4.SqlUpdate Dbx4.SqlInsert

/-- The statement with one more column at a place of its list, and the literal there in every
list of values. -/
def listed (stmt : InsertStmt) (i : ℕ) (colName : String) (literal : Expression) : InsertStmt :=
  { stmt with
    columns := stmt.columns.insertIdx i colName
    values := stmt.values.map fun valueRow => valueRow.insertIdx i literal }

/-- The default that a column gets is its text. -/
def DefaultIsText (columns : List ColumnDef) (col : ColumnDef) : Prop :=
  ∃ first, columns.find? (fun c => c.name = col.name) = some first ∧
    first.defaultValue = col.defaultValue ∧ textKind first.type = .string

/-- Leaving the column out of a list of columns has the effect of listing it with its default
as a number or a text, in whatever table of these columns. -/
def SameAsListed (D : Type) [Doubles D] (columns : List ColumnDef) (col : ColumnDef) : Prop :=
  ∀ (db : Database D) (stmt : InsertStmt) (name : String) (rows : List (Row D)) (i : ℕ)
    (type : TokenType),
    db.tables[stmt.tableName]? = some { schema := .ofColumns name columns, rows := rows } →
    stmt.columns ≠ [] → col.name ∉ stmt.columns → i ≤ stmt.columns.length →
    (type = .NUMBER ∨ type = .STRING) →
      SameEffect (execute db (.insert stmt))
        (execute db (.insert (listed stmt i col.name (.literal col.defaultValue type))))

variable {D : Type} [Doubles D]

/-! ### Defaults -/

lemma convertToType_eq_text_iff {text : String} {type : TokenType} :
    convertToType (D := D) (.string text) type = .ok (.string text) ↔ textKind type = .string := by
  refine ⟨fun h => ?_, fun h => ?_⟩
  · have hkind := valueKind_convertToType h
    exact (Option.some_inj.mp hkind).symm
  · cases type <;> first | rfl | cases h

/-- A column that is left out gets its default as if it had been there before the defaults. -/
lemma foldlM_addDefault_insert {columns : List ColumnDef} {first : ColumnDef} {colName : String}
    {v : Value D} (hfirst : columns.find? (fun c => c.name = colName) = some first)
    (hgiven : first.defaultValue ≠ "")
    (hv : convertToType (.string first.defaultValue) first.type = .ok v) {row : Row D}
    (hrow : colName ∉ row) :
    columns.foldlM addDefault row = columns.foldlM addDefault (row.insert colName v) := by
  induction columns generalizing row with
  | nil => cases hfirst
  | cons col columns ih =>
    rw [List.foldlM_cons, List.foldlM_cons]
    by_cases hname : col.name = colName
    · rw [List.find?_cons_of_pos (by simpa using hname)] at hfirst
      cases hfirst
      subst hname
      have hleft : addDefault row first = .ok (row.insert first.name v) := by
        rw [addDefault, if_neg hrow, if_pos hgiven, hv]
        rfl
      have hright : addDefault (row.insert first.name v) first = .ok (row.insert first.name v) := by
        rw [addDefault, if_pos ((mem_insert_iff _ _ _ _).mpr (Or.inl rfl))]
        rfl
      rw [hleft, hright]
    · rw [List.find?_cons_of_neg (by simpa using hname)] at hfirst
      have hmem : col.name ∈ row.insert colName v ↔ col.name ∈ row := by
        rw [mem_insert_iff]
        exact or_iff_right (Ne.symm hname)
      have hinsert (x : Value D) : colName ∉ row.insert col.name x := by
        rw [mem_insert_iff]
        exact not_or.mpr ⟨hname, hrow⟩
      unfold addDefault
      simp only [hmem]
      split_ifs
      · exact ih hfirst hrow
      · rcases convertToType (D := D) (.string col.defaultValue) col.type with e | x
        · rfl
        · rw [ok_bind, ok_bind, insert_comm row (Ne.symm hname)]
          exact ih hfirst (hinsert x)
      · rw [insert_comm row (Ne.symm hname)]
        exact ih hfirst (hinsert .null)
      · rfl

/-! ### A column listed with its default -/

lemma zip_insertIdx {α β : Type} {as : List α} {bs : List β} (hlength : bs.length = as.length)
    (i : ℕ) (a : α) (b : β) :
    (as.insertIdx i a).zip (bs.insertIdx i b) = (as.zip bs).insertIdx i (a, b) := by
  induction as generalizing bs i with
  | nil =>
    obtain rfl := List.length_eq_zero_iff.mp hlength
    cases i <;> rfl
  | cons a' as ih =>
    cases bs with
    | nil => cases hlength
    | cons b' bs =>
      cases i with
      | zero => rfl
      | succ i =>
        rw [List.insertIdx_succ_cons, List.insertIdx_succ_cons, List.zip_cons_cons,
          List.zip_cons_cons, List.insertIdx_succ_cons, ih (Nat.succ.inj hlength)]

lemma alike_of_errors {schema : TableSchema} {stmt stmt' : InsertStmt}
    {valueRow valueRow' : List Expression}
    (h : ∃ e, buildRow (D := D) stmt schema valueRow = .error e)
    (h' : ∃ e, buildRow (D := D) stmt' schema valueRow' = .error e) :
    Alike D schema stmt stmt' valueRow valueRow' := by
  obtain ⟨e, he⟩ := h
  obtain ⟨e', he'⟩ := h'
  intro row
  rw [he, he']
  exact iff_of_false (by simp) (by simp)

section Listed

variable {stmt : InsertStmt} {schema : TableSchema} {colName : String} {i : ℕ}
  {literal : Expression}

/-- With an unknown column in the list, no row is built either way. -/
lemma alike_listed_of_unknown {other : String} (hother : other ∈ stmt.columns)
    (hunknown : other ∉ schema.columnIndex) (hi : i ≤ stmt.columns.length)
    (valueRow : List Expression) :
    Alike D schema stmt (listed stmt i colName literal) valueRow
      (valueRow.insertIdx i literal) := by
  have hlisted : other ∈ (listed stmt i colName literal).columns :=
    (List.mem_insertIdx hi).mpr (Or.inr hother)
  exact alike_of_errors (buildRow_of_unknown hother hunknown)
    (buildRow_of_unknown hlisted hunknown)

/-- A list of values that is too short or too long stays so. -/
lemma alike_listed_of_mismatch (hcols : stmt.columns ≠ []) (hi : i ≤ stmt.columns.length)
    {valueRow : List Expression} (hlength : valueRow.length ≠ stmt.columns.length) :
    Alike D schema stmt (listed stmt i colName literal) valueRow
      (valueRow.insertIdx i literal) := by
  have hcols' : (listed stmt i colName literal).columns ≠ [] :=
    List.ne_nil_of_mem ((List.mem_insertIdx hi).mpr (Or.inl rfl))
  have hcount : (listed stmt i colName literal).columns.length = stmt.columns.length + 1 :=
    List.length_insertIdx_of_le_length hi colName
  refine alike_of_errors ⟨_, buildRow_of_mismatch ?_⟩ ⟨_, buildRow_of_mismatch ?_⟩
  · rwa [if_pos hcols]
  · rw [if_pos hcols', hcount, List.length_insertIdx]
    split_ifs <;> omega

/-- The row with the column listed: its value comes on top of the others. -/
lemma buildRow_listed_column {v : Value D} (hv : insertedValue literal = .ok v)
    (hknown : ∀ other ∈ stmt.columns, other ∈ schema.columnIndex)
    (hcolumn : colName ∈ schema.columnIndex) (hcol : colName ∉ stmt.columns)
    (hi : i ≤ stmt.columns.length) {valueRow : List Expression}
    (hlength : valueRow.length = stmt.columns.length) :
    buildRow (listed stmt i colName literal) schema (valueRow.insertIdx i literal) =
      ((assignValues (stmt.columns.zip valueRow) ∅).map fun row => row.insert colName v) >>=
        fun newRow => schema.columns.foldlM addDefault newRow := by
  have hcols' : (listed stmt i colName literal).columns ≠ [] :=
    List.ne_nil_of_mem ((List.mem_insertIdx hi).mpr (Or.inl rfl))
  have hknown' : ∀ other ∈ (listed stmt i colName literal).columns,
      other ∈ schema.columnIndex := by
    intro other hother
    rcases (List.mem_insertIdx hi).mp hother with rfl | hother
    · exact hcolumn
    · exact hknown other hother
  have hlength' : (valueRow.insertIdx i literal).length =
      (listed stmt i colName literal).columns.length := by
    rw [List.length_insertIdx_of_le_length (hlength ▸ hi), hlength]
    exact (List.length_insertIdx_of_le_length hi colName).symm
  have hzip : (listed stmt i colName literal).columns.zip (valueRow.insertIdx i literal) =
      (stmt.columns.zip valueRow).insertIdx i (colName, literal) := zip_insertIdx hlength i _ _
  have hkeys : (stmt.columns.zip valueRow).map Prod.fst = stmt.columns :=
    List.map_fst_zip hlength.ge
  have hassign : assignValues ((stmt.columns.zip valueRow).insertIdx i (colName, literal)) ∅ =
      (assignValues (stmt.columns.zip valueRow) ∅).map fun row => row.insert colName v := by
    refine assignAll_const_insertIdx hv ?_ ?_ ∅
    · rwa [hkeys]
    · rwa [← List.length_map Prod.fst, hkeys]
  rw [buildRow_listed hcols' hlength' hknown', hzip, hassign]

end Listed

/-- The column with its default as a literal, where the default is a text. -/
lemma alike_listed {stmt : InsertStmt} {columns : List ColumnDef} {col : ColumnDef} {i : ℕ}
    {type : TokenType} (hd : col.defaultValue ≠ "") (htext : DefaultIsText columns col)
    (name : String) (hcols : stmt.columns ≠ []) (hcol : col.name ∉ stmt.columns)
    (hi : i ≤ stmt.columns.length) (htype : type = .NUMBER ∨ type = .STRING)
    (valueRow : List Expression) :
    Alike D (.ofColumns name columns) stmt
      (listed stmt i col.name (.literal col.defaultValue type)) valueRow
      (valueRow.insertIdx i (.literal col.defaultValue type)) := by
  obtain ⟨first, hfirst, hdefault, hkind⟩ := htext
  by_cases hknown : ∀ other ∈ stmt.columns,
      other ∈ (TableSchema.ofColumns name columns).columnIndex
  swap
  · obtain ⟨other, hother, hunknown⟩ : ∃ other ∈ stmt.columns,
        other ∉ (TableSchema.ofColumns name columns).columnIndex := by
      simpa only [not_forall, exists_prop] using hknown
    exact alike_listed_of_unknown hother hunknown hi valueRow
  by_cases hlength : valueRow.length = stmt.columns.length
  swap
  · exact alike_listed_of_mismatch hcols hi hlength
  have hcolumn : col.name ∈ (TableSchema.ofColumns name columns).columnIndex := by
    have hname : first.name = col.name := by simpa using List.find?_some hfirst
    exact mem_columnIndex_ofColumns.mpr ⟨first, List.mem_of_find?_eq_some hfirst, hname⟩
  intro row
  rw [buildRow_listed hcols hlength hknown, buildRow_listed_column (insertedValue_text htype)
    hknown hcolumn hcol hi hlength, columns_ofColumns]
  rcases hassign : assignValues (D := D) (stmt.columns.zip valueRow) ∅ with e | newRow
  · rfl
  · have hnew : col.name ∉ newRow := by
      refine not_mem_of_getElem? ((getElem?_assignAll_of_notMem ?_ hassign).trans ?_)
      · rwa [List.map_fst_zip hlength.ge]
      · exact ExtTreeMap.getElem?_empty
    have hconvert : convertToType (D := D) (.string first.defaultValue) first.type =
        .ok (.string col.defaultValue) := by
      rw [hdefault]
      exact convertToType_eq_text_iff.mpr hkind
    have hsame := foldlM_addDefault_insert hfirst (by rwa [hdefault]) hconvert hnew
    rw [ok_bind, hsame]
    rfl

/-! ### Where the two differ -/

lemma execute_insert_ok {db : Database D} {stmt : InsertStmt} {table : Table D}
    {valueRow : List Expression} {row : Row D} (hname : stmt.tableName ≠ "")
    (htable : db.tables[stmt.tableName]? = some table) (hvalues : stmt.values = [valueRow])
    (h : acceptRow stmt table.schema table.rows valueRow = .ok row) :
    execute db (.insert stmt) = (some { success := true, rowsAffected := Int32.ofNat 1 },
      db.setRows stmt.tableName (table.rows ++ [row])) := by
  have hturn : insertTurn stmt table.schema (table.rows, 0) valueRow [] =
      (none, (table.rows ++ [row], 1)) := by
    rw [insertTurn, h]
  rw [execute_insert hname htable, hvalues, forEach_cons_of_none hturn]
  rfl

lemma execute_insert_error {db : Database D} {stmt : InsertStmt} {table : Table D}
    {valueRow : List Expression} {e : Throw} (hname : stmt.tableName ≠ "")
    (htable : db.tables[stmt.tableName]? = some table) (hvalues : stmt.values = [valueRow])
    (h : acceptRow stmt table.schema table.rows valueRow = .error e) :
    (execute db (.insert stmt)).1 = some (caught (.error e)) := by
  have hleft : forEach (insertTurn stmt table.schema) (table.rows, 0) [valueRow] =
      ⟨some e, (table.rows, 0), []⟩ := by
    rw [forEach, insertTurn, h]
  rw [execute_insert hname htable, hvalues, hleft]
  rfl

lemma lastFor_eq_none {name : String} {ws : List (String × Expression)}
    (h : name ∉ ws.map Prod.fst) : lastFor name ws = none := by
  rcases hlast : lastFor name ws with _ | expr
  · rfl
  · exact absurd (List.mem_map_of_mem (mem_of_lastFor hlast)) h

/-- Where the value of a column that is left out is its default as a text, that default is a
text. -/
lemma defaultIsText_of_buildRow {columns : List ColumnDef} {col : ColumnDef} {stmt : InsertStmt}
    {name : String} {valueRow : List Expression} {row : Row D} (hcolumn : col ∈ columns)
    (hcols : stmt.columns ≠ []) (hcol : col.name ∉ stmt.columns)
    (hbuild : buildRow stmt (.ofColumns name columns) valueRow = .ok row)
    (hvalue : row[col.name]? = some (.string col.defaultValue)) : DefaultIsText columns col := by
  have hlast : lastFor col.name (written stmt (.ofColumns name columns) valueRow) = none := by
    refine lastFor_eq_none fun hmem => hcol ?_
    rw [written, if_pos hcols] at hmem
    obtain ⟨w, hw, hname⟩ := List.mem_map.mp hmem
    rw [← hname]
    exact (List.of_mem_zip hw).1
  have hmem : col ∈ (TableSchema.ofColumns name columns).columns := by rwa [columns_ofColumns]
  have hdefault := buildRow_getElem? hbuild hmem
  rw [hlast] at hdefault
  obtain ⟨first, v, hfirst, hv, hrow⟩ := hdefault
  rw [hvalue, Option.some_inj] at hrow
  subst hrow
  rw [defaultColumn, columns_ofColumns] at hfirst
  unfold IsDefault at hv
  split_ifs at hv
  have hkind : textKind first.type = .string :=
    (Option.some_inj.mp (valueKind_convertToType hv)).symm
  rw [convertToType_eq_text_iff.mpr hkind, Except.ok.injEq, Value.string.injEq] at hv
  exact ⟨first, hfirst, hv, hkind⟩

/-! ### An insert of texts -/

/-- An insert into all columns but the one of this name. -/
def textsInsert (columns : List ColumnDef) (colName : String) : InsertStmt where
  tableName := "t"
  columns := (columns.map ColumnDef.name).filter fun name => name ≠ colName
  values := [((columns.map ColumnDef.name).filter fun name => name ≠ colName).map
    fun _ => .literal "" .STRING]

/-- With the column listed, a row of texts goes into an empty table. -/
lemma exists_acceptRow_listed {columns : List ColumnDef} {col : ColumnDef}
    (hcolumn : col ∈ columns) :
    ∃ row : Row D,
      acceptRow (listed (textsInsert columns col.name) 0 col.name
          (.literal col.defaultValue .STRING)) (.ofColumns "t" columns) []
        (.literal col.defaultValue .STRING ::
          (textsInsert columns col.name).columns.map fun _ => .literal "" .STRING) = .ok row ∧
      row[col.name]? = some (.string col.defaultValue) := by
  set stmt := listed (textsInsert columns col.name) 0 col.name
    (.literal col.defaultValue .STRING) with hstmt
  set valueRow : List Expression := .literal col.defaultValue .STRING ::
    (textsInsert columns col.name).columns.map fun _ => .literal "" .STRING with hvalueRow
  have hcolumns : stmt.columns = col.name :: (textsInsert columns col.name).columns := rfl
  have hcols : stmt.columns ≠ [] := by simp [hcolumns]
  have hlength : valueRow.length = stmt.columns.length := by simp [hcolumns, hvalueRow]
  have hknown : ∀ colName ∈ stmt.columns,
      colName ∈ (TableSchema.ofColumns "t" columns).columnIndex := by
    intro colName hmem
    rw [hcolumns] at hmem
    rcases List.mem_cons.mp hmem with rfl | hmem
    · exact mem_columnIndex_ofColumns.mpr ⟨col, hcolumn, rfl⟩
    · obtain ⟨c, hc, hname⟩ := List.mem_map.mp (List.mem_filter.mp hmem).1
      exact mem_columnIndex_ofColumns.mpr ⟨c, hc, hname⟩
  have hall : ∀ c ∈ (TableSchema.ofColumns "t" columns).columns, c.name ∈ stmt.columns := by
    intro c hc
    rw [columns_ofColumns] at hc
    rw [hcolumns, List.mem_cons, or_iff_not_imp_left]
    exact fun hne => List.mem_filter.mpr ⟨List.mem_map_of_mem hc, by simpa using hne⟩
  have hbuild := buildRow_allListed (D := D) hcols hlength hknown hall
  have htexts : ∀ w ∈ stmt.columns.zip valueRow, ∃ v : Value D, insertedValue w.2 = .ok v := by
    intro w hw
    rcases List.mem_cons.mp (List.of_mem_zip hw).2 with hexpr | hexpr
    · exact ⟨_, hexpr ▸ insertedValue_text (Or.inr rfl)⟩
    · obtain ⟨_, -, hexpr⟩ := List.mem_map.mp hexpr
      exact ⟨_, hexpr ▸ insertedValue_text (Or.inr rfl)⟩
  have hassign := assignAll_const_of_ok htexts (∅ : Row D)
  have hnot : col.name ∉ ((textsInsert columns col.name).columns.zip
      ((textsInsert columns col.name).columns.map fun _ =>
        Expression.literal "" .STRING)).map Prod.fst := by
    rw [List.map_fst_zip (by simp)]
    exact fun hmem => by simpa using (List.mem_filter.mp hmem).2
  refine ⟨_, acceptRow_of_assignValues (hbuild.trans hassign) hassign, ?_⟩
  obtain ⟨v, hv, hstored, -⟩ := stored_of_cons hnot hassign
  cases hv
  exact hstored

/-! ### Which columns may be left out -/

/-- A column whose default is a text may be listed or left out. -/
lemma sameAsListed_of_text {columns : List ColumnDef} {col : ColumnDef}
    (hd : col.defaultValue ≠ "") (htext : DefaultIsText columns col) :
    SameAsListed D columns col := by
  intro db stmt name rows i type htable hcols hcol hi htype
  refine execute_insert_alike rfl htable (List.forall₂_map_right_iff.mpr ?_)
  exact List.forall₂_same.mpr fun valueRow _ =>
    alike_listed hd htext name hcols hcol hi htype valueRow

/-- Where there is no other column, leaving this one out leaves none to list. -/
lemma sameAsListed_of_alone {columns : List ColumnDef} {col : ColumnDef}
    (halone : ∀ c ∈ columns, c.name = col.name) : SameAsListed D columns col := by
  intro db stmt name rows i type htable hcols hcol hi htype
  obtain ⟨other, hother⟩ := List.exists_mem_of_ne_nil stmt.columns hcols
  have hunknown : other ∉ (TableSchema.ofColumns name columns).columnIndex := by
    intro hmem
    obtain ⟨c, hc, rfl⟩ := mem_columnIndex_ofColumns.mp hmem
    rw [halone c hc] at hother
    exact hcol hother
  refine execute_insert_alike rfl htable (List.forall₂_map_right_iff.mpr ?_)
  exact List.forall₂_same.mpr fun valueRow _ =>
    alike_listed_of_unknown hother hunknown hi valueRow

/-- A table with another column shows the difference. -/
lemma defaultIsText_of_sameAsListed {columns : List ColumnDef} {col c : ColumnDef}
    (hcolumn : col ∈ columns) (hc : c ∈ columns) (hne : c.name ≠ col.name)
    (h : SameAsListed D columns col) : DefaultIsText columns col := by
  set stmt := textsInsert columns col.name
  set stmt' := listed stmt 0 col.name (.literal col.defaultValue .STRING)
  set table : Table D := { schema := .ofColumns "t" columns }
  set db := emptyTable D "t" (.ofColumns "t" columns)
  have hcols : stmt.columns ≠ [] :=
    List.ne_nil_of_mem (List.mem_filter.mpr ⟨List.mem_map_of_mem hc, by simpa using hne⟩)
  have hcol : col.name ∉ stmt.columns :=
    fun hmem => by simpa using (List.mem_filter.mp hmem).2
  have hname : stmt.tableName ≠ "" := show "t" ≠ "" by decide
  have htable : db.tables[stmt.tableName]? = some table := ExtTreeMap.getElem?_insert_self
  have hname' : stmt'.tableName ≠ "" := hname
  have htable' : db.tables[stmt'.tableName]? = some table := htable
  obtain ⟨row, haccept, hvalue⟩ := exists_acceptRow_listed (D := D) hcolumn
  have hlisted : execute db (.insert stmt') =
      (some { success := true, rowsAffected := Int32.ofNat 1 }, db.setRows "t" [row]) :=
    execute_insert_ok hname' htable' rfl haccept
  obtain ⟨hresult, hdb⟩ : SameEffect (execute db (.insert stmt)) (execute db (.insert stmt')) :=
    h db stmt "t" [] 0 .STRING htable hcols hcol (Nat.zero_le _) (Or.inr rfl)
  rw [hlisted] at hresult hdb
  rcases hleft : acceptRow (D := D) stmt (.ofColumns "t" columns) []
      (stmt.columns.map fun _ => .literal "" .STRING) with e | row'
  · rw [execute_insert_error hname htable rfl hleft] at hresult
    cases hresult
  · rw [execute_insert_ok hname htable rfl hleft] at hdb
    obtain rfl : row' = row := List.singleton_inj.mp ((Database.setRows_inj htable).mp hdb)
    exact defaultIsText_of_buildRow hcolumn hcols hcol (buildRow_of_acceptRow hleft) hvalue

/-- **When a default is what the same text as a literal is**: for a column whose type leaves
texts as they are; and where there is no other column to list. -/
theorem sameAsListed_iff {columns : List ColumnDef} {col : ColumnDef} (hcolumn : col ∈ columns)
    (hd : col.defaultValue ≠ "") :
    SameAsListed D columns col ↔
      DefaultIsText columns col ∨ ∀ c ∈ columns, c.name = col.name := by
  refine ⟨fun h => ?_, fun h => h.elim (sameAsListed_of_text hd) sameAsListed_of_alone⟩
  by_cases hother : ∃ c ∈ columns, c.name ≠ col.name
  · obtain ⟨c, hc, hne⟩ := hother
    exact Or.inl (defaultIsText_of_sameAsListed hcolumn hc hne h)
  · exact Or.inr fun c hc => by_contra fun hne => hother ⟨c, hc, hne⟩

/-- A text column with a default, and a number column with one. -/
def withDefaults : List ColumnDef :=
  [{ name := "a", type := .INT, defaultValue := "5" },
    { name := "b", type := .TEXT, defaultValue := "x" }]

theorem sameAsListed_text :
    SameAsListed ℚ withDefaults { name := "b", type := .TEXT, defaultValue := "x" } := by
  refine (sameAsListed_iff (List.mem_cons_of_mem _ List.mem_cons_self) (by decide)).mpr ?_
  exact Or.inl ⟨_, rfl, rfl, rfl⟩

/-- `INSERT INTO t (b) VALUES ('x')` against `INSERT INTO t (a, b) VALUES (5, 'x')`. -/
theorem not_sameAsListed_int :
    ¬ SameAsListed ℚ withDefaults { name := "a", type := .INT, defaultValue := "5" } := by
  intro h
  have hsame := (h (emptyTable ℚ "t" (.ofColumns "t" withDefaults))
    { tableName := "t", columns := ["b"], values := [[.literal "x" .STRING]] } "t" [] 0 .NUMBER
    rfl (by decide) (by decide) (by decide) (Or.inl rfl)).2
  have hvalue := congrArg (fun db : Database ℚ => db.tables["t"]?.map fun table =>
    table.rows.map fun row => row["a"]?) hsame
  revert hvalue
  decide

end Dbx4.SqlDefaults
