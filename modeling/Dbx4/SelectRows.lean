import Dbx4.ForEach
import Dbx4.Maps
import Dbx4.SelectModel
import Dbx4.SqlPage
import Dbx4.SqlExec
import Mathlib.Order.Defs.Unbundled

/-!
`ORDER BY` and `LIMIT` of `sql_executor_enhanced.cpp`, and `LIMIT` of both executors.

The sort takes a row without the column to go before every row, itself among them. A limit of
zero cuts off nothing, where `QueryExecutor` returns no row.
-/

namespace Dbx4.SelectRows

open Std Dbx4.Word32 Dbx4.ForEach Dbx4.Maps Dbx4.SqlLexer Dbx4.SelectModel

/-! ### ORDER BY -/

section Order

/-- The value of a column. -/
def key (orderBy : Bytes) (row : Row) : Bytes := row[orderBy]?.getD []

variable {orderBy : Bytes} {a b : Row}

lemma before_of_mem (ha : orderBy ∈ a) (hb : orderBy ∈ b) :
    before orderBy a b ↔ key orderBy a < key orderBy b := by
  obtain ⟨x, hx⟩ := Option.isSome_iff_exists.mp (ExtTreeMap.mem_iff_isSome_getElem?.mp ha)
  obtain ⟨y, hy⟩ := Option.isSome_iff_exists.mp (ExtTreeMap.mem_iff_isSome_getElem?.mp hb)
  rw [before, key, key, hx, hy]
  exact decide_eq_true_iff

lemma before_self_of_notMem (ha : orderBy ∉ a) : before orderBy a a := by
  have hnone : a[orderBy]? = none := by
    rwa [ExtTreeMap.mem_iff_isSome_getElem?, Option.not_isSome_iff_eq_none] at ha
  rw [before, hnone]

/-- **When the comparison is an order**: on rows that all have the column. -/
theorem before_isStrictWeakOrder_iff (orderBy : Bytes) (rows : List Row) :
    IsStrictWeakOrder {row // row ∈ rows} (fun a b => before orderBy a b) ↔
      ∀ row ∈ rows, orderBy ∈ row := by
  constructor
  · intro h row hrow
    by_contra hmissing
    exact h.irrefl ⟨row, hrow⟩ (before_self_of_notMem hmissing)
  · intro h
    have hbefore (a b : {row // row ∈ rows}) :
        before orderBy a b ↔ key orderBy a < key orderBy b :=
      before_of_mem (h a a.2) (h b b.2)
    refine { irrefl := fun a haa => List.lt_irrefl _ ((hbefore a a).mp haa)
             trans := fun a b c hab hbc => ?_
             incomp_trans := fun a b c hab hbc => ?_ }
    · exact (hbefore a c).mpr (List.lt_trans ((hbefore a b).mp hab) ((hbefore b c).mp hbc))
    · simp only [hbefore, List.not_lt] at hab hbc ⊢
      have hac : key orderBy a = key orderBy c :=
        (List.le_antisymm hab.2 hab.1).trans (List.le_antisymm hbc.2 hbc.1)
      exact ⟨List.not_lt.mp (hac ▸ List.lt_irrefl _), List.not_lt.mp (hac ▸ List.lt_irrefl _)⟩

/-- A row that lacks the column goes before itself. -/
theorem not_forall_isStrictWeakOrder : ¬∀ orderBy (rows : List Row),
    IsStrictWeakOrder {row // row ∈ rows} (fun a b => before orderBy a b) := fun h =>
  (h (ascii "a") [∅]).irrefl ⟨∅, List.mem_cons_self⟩ rfl

end Order

/-! ### Projections -/

lemma getElem?_project (cols : List Bytes) (row : Row) (name : Bytes) :
    (project cols row)[name]? = if name ∈ cols then row[name]? else none := by
  refine (getElem?_foldl_copy row (fun projected col => ?_) cols ∅ name).trans ?_
  · cases row[col]? <;> rfl
  · rw [ExtTreeMap.getElem?_empty, Option.or_none]
    split_ifs <;> rfl

lemma getElem?_project_table {D : Type} (columns : List String) (row : SqlEval.Row D)
    (name : String) :
    (SqlExec.project columns row)[name]? = if name ∈ columns then row[name]? else none := by
  refine (getElem?_foldl_copy row (fun result colName => ?_) columns ∅ name).trans ?_
  · cases row[colName]? <;> rfl
  · rw [ExtTreeMap.getElem?_empty, Option.or_none]

/-! ### Tables that hold rows -/

section Hold

variable {D : Type}

/-- A text of bytes as a text of characters. -/
def text (b : Bytes) : String := String.ofList (b.map Char.ofUInt8)

lemma text_injective : Function.Injective text := by
  have hchar : Function.Injective Char.ofUInt8 := fun c d h =>
    UInt8.toUInt32_inj.mp (congrArg Char.val h)
  exact fun b b' h => hchar.list_map (String.ofList_injective h)

/-- The row of a table that has the same columns, with texts for values. -/
structure Holds (tableRow : SqlEval.Row D) (row : Row) : Prop where
  value : ∀ name, tableRow[text name]? = row[name]?.map fun value => .string (text value)
  column : ∀ key ∈ tableRow, ∃ name ∈ row, key = text name

variable {tableRow : SqlEval.Row D} {row : Row}

lemma holds_empty : Holds (∅ : SqlEval.Row D) ∅ where
  value name := by rw [ExtTreeMap.getElem?_empty, ExtTreeMap.getElem?_empty]; rfl
  column key hkey := absurd hkey ExtTreeMap.not_mem_empty

/-- Every row has a row of a table that holds it. -/
lemma Holds.insert (h : Holds tableRow row) (name value : Bytes) :
    Holds (tableRow.insert (text name) (.string (text value))) (row.insert name value) where
  value name' := by
    by_cases hname : name = name'
    · subst hname
      rw [ExtTreeMap.getElem?_insert_self, ExtTreeMap.getElem?_insert_self]
      rfl
    · rw [getElem?_insert_of_ne _ (text_injective.ne hname), getElem?_insert_of_ne _ hname,
        h.value]
  column key hkey := by
    rcases (mem_insert_iff _ _ _ _).mp hkey with rfl | hkey
    · exact ⟨name, (mem_insert_iff _ _ _ _).mpr (.inl rfl), rfl⟩
    · obtain ⟨name', hname', rfl⟩ := h.column key hkey
      exact ⟨name', (mem_insert_iff _ _ _ _).mpr (.inr hname'), rfl⟩

lemma Holds.project (h : Holds tableRow row) (cols : List Bytes) :
    Holds (SqlExec.project (cols.map text) tableRow) (SelectModel.project cols row) where
  value name := by
    simp only [getElem?_project_table, getElem?_project,
      List.mem_map_of_injective text_injective, h.value]
    split_ifs <;> rfl
  column key hkey := by
    rw [ExtTreeMap.mem_iff_isSome_getElem?, getElem?_project_table] at hkey
    split_ifs at hkey with hmem
    · obtain ⟨name, hname, rfl⟩ := List.mem_map.mp hmem
      rw [h.value] at hkey
      refine ⟨name, ?_, rfl⟩
      rw [ExtTreeMap.mem_iff_isSome_getElem?, getElem?_project, if_pos hname]
      simpa using hkey
    · cases hkey

/-- All columns leave a row as it is. -/
lemma project_eq_self {columns : List String} (h : ∀ key ∈ tableRow, key ∈ columns) :
    SqlExec.project columns tableRow = tableRow := by
  ext key : 1
  rw [getElem?_project_table]
  split_ifs with hkey
  · rfl
  · exact (ExtTreeMap.getElem?_eq_none fun hmem => hkey (h key hmem)).symm

end Hold

/-! ### LIMIT -/

/-- The rows as a projection leaves them. -/
def projected (projection : Bytes) (row : Row) : Row :=
  if parseColumns projection = [] then row else project (parseColumns projection) row

/-- Without `WHERE` and `ORDER BY`. -/
lemma executeSelect_eq (rows : List Row) (projection : Bytes) {orderBy : Bytes} (limit : Int32)
    (horder : orderBy = [] ∨ orderBy = ascii "*") :
    executeSelect rows projection orderBy limit [] =
      .ok ((limited limit rows).map (projected projection)) := by
  have hfilter : rows.filterM (evaluateWhere []) = .ok (rows.filter fun _ => true) :=
    filterM_of_ok fun row _ => evaluateWhere_nil
  have hplain : ¬(orderBy ≠ [] ∧ orderBy ≠ ascii "*") := by
    rwa [not_and_or, not_not, not_not]
  rw [List.filter_true] at hfilter
  rw [executeSelect, hfilter]
  change Except.ok _ = _
  rw [if_neg hplain]
  by_cases hcols : parseColumns projection = []
  · have hid : projected projection = id := funext fun row => if_pos hcols
    rw [if_neg (not_not.mpr hcols), hid, List.map_id]
  · have hproject : projected projection = project (parseColumns projection) :=
      funext fun row => if_neg hcols
    rw [if_pos hcols, hproject]

section Limit

variable {rows : List Row} {limit : Int32}

/-- The limits that cut off what they should. -/
def Cuts (limit : Int32) (n : ℕ) : Prop :=
  n = 0 ∨ 0 < limit ∧ (n < 2 ^ 31 ∨ limit < Int32.ofNat n)

instance (n : ℕ) : Decidable (Cuts limit n) := inferInstanceAs (Decidable (_ ∨ _ ∧ _))

lemma limited_eq_take_iff (hlimit : 0 ≤ limit) :
    limited limit rows = rows.take limit.toInt.toNat ↔ Cuts limit rows.length := by
  have hsize := SqlPage.size_cases rows.length
  have hpos : 0 < limit ↔ 0 < limit.toInt := Int32.lt_iff_toInt_lt
  have hnonneg : 0 ≤ limit.toInt := Int32.le_iff_toInt_le.mp hlimit
  have hlt : limit < Int32.ofNat rows.length ↔ limit.toInt < SqlPage.size rows.length :=
    Int32.lt_iff_toInt_lt
  have hself : rows = rows.take limit.toInt.toNat ↔ rows.length ≤ limit.toInt.toNat :=
    eq_comm.trans (List.take_eq_self_iff rows)
  have hl := limit.toInt_lt
  unfold limited Cuts
  simp only [hpos, hlt]
  split_ifs with hcut
  · exact iff_of_true rfl (.inr ⟨hcut.1, .inr hcut.2⟩)
  · rw [hself]
    omega

/-- The projected rows tell whether the limit was right. -/
lemma map_limited_eq_iff (hlimit : 0 ≤ limit) (f : Row → Row) :
    (limited limit rows).map f = (rows.take limit.toInt.toNat).map f ↔
      Cuts limit rows.length := by
  rw [← limited_eq_take_iff hlimit]
  refine ⟨fun h => ?_, congrArg _⟩
  have hlength := congrArg List.length h
  rw [List.length_map, List.length_map] at hlength
  unfold limited at hlength ⊢
  split_ifs at hlength ⊢
  · rfl
  · rw [List.length_take] at hlength
    exact (List.take_of_length_le (by omega)).symm

end Limit

section Table

variable {D : Type}

/-- The page at offset zero, in a table whose size is an `int` or not less than the limit. -/
lemma page_eq_take {limit : Int32} {rows : List (SqlEval.Row D)}
    (h : Cuts limit rows.length) :
    SqlEval.page limit 0 rows = some (rows.take limit.toInt.toNat) := by
  have hl := limit.toInt_lt
  have hsize := SqlPage.size_cases rows.length
  have hpos : 0 < limit ↔ 0 < limit.toInt := Int32.lt_iff_toInt_lt
  have hlt : limit < Int32.ofNat rows.length ↔ limit.toInt < SqlPage.size rows.length :=
    Int32.lt_iff_toInt_lt
  have hzero : (0 : Int32).toInt = 0 := rfl
  have hturns : SqlPage.turns limit 0 rows.length ≤ rows.length ∧
      min (SqlPage.turns limit 0 rows.length) rows.length =
        min limit.toInt.toNat rows.length := by
    rw [SqlPage.turns, hzero]
    rcases h with hnil | ⟨hlimit, hroom⟩
    · omega
    · have hend := SqlPage.endOf_of_pos (hpos.mp hlimit) 0 rows.length
      rw [hzero, if_pos (by omega)] at hend
      rw [hlt] at hroom
      rw [hend]
      omega
  rw [SqlPage.page_eq, SqlPage.mapM_rowAt, hzero, if_pos (.inr ⟨le_rfl, by omega⟩), Int.toNat_zero,
    List.drop_zero, Option.some.injEq, List.take_eq_take_iff]
  exact hturns.2

/-- All columns of a table. -/
def AllColumns (table : SqlExec.Table D) : Prop :=
  ∀ row ∈ table.rows, ∀ key ∈ row, key ∈ table.schema.columns.map SqlAst.ColumnDef.name

/-- The statement asks for what the projection does: for all columns, or for columns of the
table, none of which is named `*`. -/
def Asks (projection : Bytes) (schema : SqlExec.TableSchema) (columns : List SqlAst.Expression) :
    Prop :=
  parseColumns projection = [] ∧ columns = [.identifier "*"] ∨
    parseColumns projection ≠ [] ∧
      columns = (parseColumns projection).map (fun name => .identifier (text name)) ∧
      ∀ name ∈ parseColumns projection, text name ∈ schema.columnIndex ∧ text name ≠ "*"

lemma selectColumns_identifiers (schema : SqlExec.TableSchema) {names : List String}
    (hnames : ∀ name ∈ names, name ∈ schema.columnIndex ∧ name ≠ "*") :
    SqlExec.selectColumns schema (names.map .identifier) = .ok names := by
  have hvalid (name : String) (h : name ∈ schema.columnIndex) :
      SqlExec.validateColumnExists name schema = .ok () := if_pos h
  have hfold (selected : List String) (hmem : ∀ name ∈ names, name ∈ schema.columnIndex) :
      names.foldlM (fun selected name => do
        SqlExec.validateColumnExists name schema
        return selected ++ [name]) selected = .ok (selected ++ names) := by
    clear hnames
    induction names generalizing selected with
    | nil => exact congrArg Except.ok (List.append_nil _).symm
    | cons name names ih =>
      rw [List.forall_mem_cons] at hmem
      rw [List.foldlM_cons, hvalid name hmem.1]
      refine (ih _ hmem.2).trans ?_
      rw [List.append_assoc, List.singleton_append]
  have hmany := hfold [] fun name hname => (hnames name hname).1
  rcases names with _ | ⟨name, _ | ⟨name', names⟩⟩
  · rfl
  · rw [List.forall_mem_singleton] at hnames
    rw [List.map_singleton, SqlExec.selectColumns, if_neg hnames.2, hvalid name hnames.1]
    rfl
  · rw [List.map_cons, List.map_cons, SqlExec.selectColumns, ← List.map_cons, ← List.map_cons,
      List.foldlM_map]
    · exact hmany
    · simp
    · simp

/-- Without `WHERE` and `ORDER BY`, on the page. -/
lemma executeSelect_table [SqlValue.Doubles D] {db : SqlExec.Database D}
    {stmt : SqlAst.SelectStatement} {table : SqlExec.Table D} {columns : List String}
    (hname : stmt.tableName ≠ "") (htable : db.tables[stmt.tableName]? = some table)
    (hwhere : stmt.whereClause = none) (horder : stmt.orderBy = [])
    (hcolumns : SqlExec.selectColumns table.schema stmt.columns = .ok columns)
    {page : List (SqlEval.Row D)}
    (hpage : SqlEval.page stmt.limit stmt.offset table.rows = some page) :
    ∃ answer, SqlExec.executeSelect db stmt = .ok (some answer) ∧
      answer.rows = page.map (SqlExec.project columns) := by
  have hfilter : table.rows.filterM (SqlEval.selects stmt.whereClause) =
      .ok (table.rows.filter fun _ => true) :=
    filterM_of_ok fun row _ => by rw [hwhere]; rfl
  rw [List.filter_true] at hfilter
  have hordered : SqlExec.ordered table.schema stmt.orderBy table.rows = .ok table.rows :=
    if_pos horder
  rw [SqlExec.executeSelect_of_table hname htable, hcolumns, hfilter]
  dsimp only [bind, Except.bind]
  rw [hordered]
  dsimp only
  rw [hpage]
  exact ⟨_, rfl, rfl⟩

/-- The rows that the columns of the statement leave are the projected rows. -/
lemma exists_columns {table : SqlExec.Table D} {rows : List Row} {projection : Bytes}
    {columns : List SqlAst.Expression} (hrows : List.Forall₂ Holds table.rows rows)
    (hall : AllColumns table) (hasks : Asks projection table.schema columns) :
    ∃ names, SqlExec.selectColumns table.schema columns = .ok names ∧
      List.Forall₂ (fun tableRow row =>
        Holds (SqlExec.project names tableRow) (projected projection row)) table.rows rows := by
  rcases hasks with ⟨hparse, rfl⟩ | ⟨hparse, rfl, hmem⟩
  · refine ⟨table.schema.columns.map SqlAst.ColumnDef.name, rfl, ?_⟩
    rw [List.forall₂_iff_zip] at hrows ⊢
    refine ⟨hrows.1, fun {tableRow row} hzip => ?_⟩
    rw [project_eq_self (hall tableRow (List.of_mem_zip hzip).1), projected, if_pos hparse]
    exact hrows.2 hzip
  · refine ⟨(parseColumns projection).map text, ?_, hrows.imp fun tableRow row hholds => ?_⟩
    · have hnames : ∀ name ∈ (parseColumns projection).map text,
          name ∈ table.schema.columnIndex ∧ name ≠ "*" := by
        rwa [List.forall_mem_map]
      have hselect := selectColumns_identifiers table.schema hnames
      rwa [List.map_map] at hselect
    · rw [projected, if_neg hparse]
      exact hholds.project _

/-! ### Both executors -/

/-- A statement for the rows of a table, without `WHERE`, `ORDER BY` and `OFFSET`. -/
structure Serves (db : SqlExec.Database D) (stmt : SqlAst.SelectStatement)
    (table : SqlExec.Table D) : Prop where
  name : stmt.tableName ≠ ""
  table : db.tables[stmt.tableName]? = some table
  whereClause : stmt.whereClause = none
  orderBy : stmt.orderBy = []
  offset : stmt.offset = 0

/-- Both executors return the first rows, up to the limit. -/
def LimitMeans [SqlValue.Doubles D] (rows : List Row) (projection orderBy : Bytes)
    (db : SqlExec.Database D) (stmt : SqlAst.SelectStatement) : Prop :=
  ∃ result answer, executeSelect rows projection orderBy stmt.limit [] = .ok result ∧
    SqlExec.executeSelect db stmt = .ok (some answer) ∧
    result = (rows.take stmt.limit.toInt.toNat).map (projected projection) ∧
    List.Forall₂ Holds answer.rows result

/-- **When `LIMIT` means the same**: where it is not zero, and cuts at an `int`. -/
theorem limitMeans_iff [SqlValue.Doubles D] {db : SqlExec.Database D}
    {stmt : SqlAst.SelectStatement} {table : SqlExec.Table D} {rows : List Row}
    {projection orderBy : Bytes} (hserves : Serves db stmt table)
    (hrows : List.Forall₂ Holds table.rows rows) (hall : AllColumns table)
    (hasks : Asks projection table.schema stmt.columns)
    (horder : orderBy = [] ∨ orderBy = ascii "*") (hlimit : 0 ≤ stmt.limit) :
    LimitMeans rows projection orderBy db stmt ↔
      rows.length = 0 ∨
        0 < stmt.limit ∧ (rows.length < 2 ^ 31 ∨ stmt.limit < Int32.ofNat rows.length) := by
  have hresult := executeSelect_eq rows projection stmt.limit horder
  constructor
  · rintro ⟨result, answer, hok, -, hfirst, -⟩
    rw [hresult] at hok
    obtain rfl := Except.ok.inj hok
    exact (map_limited_eq_iff hlimit _).mp hfirst
  · intro hcuts
    obtain ⟨names, hnames, hproject⟩ := exists_columns hrows hall hasks
    have hcuts' : Cuts stmt.limit table.rows.length := hrows.length_eq ▸ hcuts
    have hpage := page_eq_take hcuts'
    obtain ⟨answer, hanswer, hanswerRows⟩ := executeSelect_table hserves.name hserves.table
      hserves.whereClause hserves.orderBy hnames (hserves.offset ▸ hpage)
    refine ⟨_, answer, hresult, hanswer, (map_limited_eq_iff hlimit _).mpr hcuts, ?_⟩
    rw [hanswerRows, (map_limited_eq_iff hlimit _).mpr hcuts, List.forall₂_map_left_iff,
      List.forall₂_map_right_iff]
    exact List.forall₂_take _ hproject

end Table

/-! ### One row -/

def oneRow : Row := (∅ : Row).insert (ascii "a") (ascii "1")

/-- A table with the column `a`, and one row. -/
def oneTable : SqlExec.Table ℚ where
  schema := .ofColumns "t" [{ name := "a", type := .VARCHAR }]
  rows := [(∅ : SqlEval.Row ℚ).insert (text (ascii "a")) (.string (text (ascii "1")))]

def oneDatabase : SqlExec.Database ℚ where
  tables := (∅ : ExtTreeMap String (SqlExec.Table ℚ)).insert "t" oneTable

/-- `SELECT * FROM t` with a limit. -/
def selectAll (limit : Int32) : SqlAst.SelectStatement :=
  { columns := [.identifier "*"], tableName := "t", limit }

lemma serves_selectAll (limit : Int32) : Serves oneDatabase (selectAll limit) oneTable where
  name := (show "t" ≠ "" by decide)
  table := ExtTreeMap.getElem?_insert_self
  whereClause := rfl
  orderBy := rfl
  offset := rfl

lemma forall₂_oneTable : List.Forall₂ Holds oneTable.rows [oneRow] :=
  .cons (holds_empty.insert _ _) .nil

lemma allColumns_oneTable : AllColumns oneTable := by
  intro row hrow key hkey
  obtain rfl := List.mem_singleton.mp hrow
  rcases (mem_insert_iff _ _ _ _).mp hkey with rfl | hkey
  · exact List.mem_singleton.mpr rfl
  · exact absurd hkey ExtTreeMap.not_mem_empty

/-- A limit of one row. -/
theorem limitMeans_iff_one :
    LimitMeans [oneRow] (ascii "*") [] oneDatabase (selectAll 1) ↔
      [oneRow].length = 0 ∨
        0 < (1 : Int32) ∧ ([oneRow].length < 2 ^ 31 ∨ 1 < Int32.ofNat [oneRow].length) :=
  limitMeans_iff (serves_selectAll 1) forall₂_oneTable allColumns_oneTable (.inl ⟨rfl, rfl⟩)
    (.inl rfl) (by decide)

/-- A limit of zero, and one row. -/
theorem not_forall_limitMeans : ¬∀ (db : SqlExec.Database ℚ) stmt table rows projection orderBy,
    Serves db stmt table → List.Forall₂ Holds table.rows rows → AllColumns table →
      Asks projection table.schema stmt.columns → (orderBy = [] ∨ orderBy = ascii "*") →
        0 ≤ stmt.limit → LimitMeans rows projection orderBy db stmt := by
  intro h
  obtain ⟨result, answer, hok, -, hfirst, -⟩ := h oneDatabase (selectAll 0) oneTable [oneRow]
    (ascii "*") [] (serves_selectAll 0) forall₂_oneTable allColumns_oneTable (.inl ⟨rfl, rfl⟩)
    (.inl rfl) (by decide)
  rw [executeSelect_eq _ _ _ (.inl rfl)] at hok
  obtain rfl := Except.ok.inj hok
  exact absurd ((map_limited_eq_iff (by decide) _).mp hfirst) (by decide)

end Dbx4.SelectRows
