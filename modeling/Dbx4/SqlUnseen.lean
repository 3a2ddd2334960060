import Dbx4.SqlColumns
import Dbx4.SqlPage

/-!
What a `SELECT` does not see.

A `SELECT` looks at the columns that it shows, that its clause names and that it orders by.
An `UPDATE` of other columns leaves its answer as it was, whether the update fails or not.
-/

namespace Dbx4.SqlUnseen

open Std Dbx4.ForEach Dbx4.Maps Dbx4.Runs Dbx4.SqlAst Dbx4.SqlValue Dbx4.SqlEval Dbx4.SqlExec
open Dbx4.SqlConstraints Dbx4.SqlTables Dbx4.SqlColumns Dbx4.SqlPage

variable {D : Type}

/-- The columns in the answer. -/
def shown (schema : TableSchema) (stmt : SelectStatement) : Finset String :=
  match selectColumns schema stmt.columns with
  | .ok columns => columns.toFinset
  | .error _ => ∅

def seen (schema : TableSchema) (stmt : SelectStatement) : Finset String :=
  shown schema stmt ∪ clauseNames stmt.whereClause ∪ (stmt.orderBy.map Prod.fst).toFinset

/-- Rows that show the same in the columns. -/
abbrev Alike (cols : Set String) : List (Row D) → List (Row D) → Prop :=
  List.Forall₂ fun row row' => Set.EqOn (column row) (column row') cols

variable [Doubles D] {cols : Set String} {a a' b b' row row' : Row D} {rows rows' : List (Row D)}

/-! ### The order of rows -/

lemma goesBefore_congr {check : String → Except Throw Unit} {orderBy : List (String × Bool)}
    (hcols : ∀ key ∈ orderBy, key.1 ∈ cols) (ha : Set.EqOn (column a) (column a') cols)
    (hb : Set.EqOn (column b) (column b') cols) :
    goesBefore check orderBy a b = goesBefore check orderBy a' b' := by
  induction orderBy with
  | nil => rfl
  | cons key orderBy ih =>
    obtain ⟨hkey, hcols⟩ := List.forall_mem_cons.mp hcols
    have hvalue : valueAt a key.1 = valueAt a' key.1 := by
      have hsame : a[key.1]? = a'[key.1]? := ha hkey
      rw [valueAt, valueAt, hsame]
    have hvalue' : valueAt b key.1 = valueAt b' key.1 := by
      have hsame : b[key.1]? = b'[key.1]? := hb hkey
      rw [valueAt, valueAt, hsame]
    rw [goesBefore, goesBefore, hvalue, hvalue', ih hcols]

omit [Doubles D] in
lemma insertSorted_agree {R : Row D → Row D → Prop} {before : Row D → Row D → Except Throw Bool}
    (hbefore : ∀ a a' b b', R a a' → R b b' → before a b = before a' b')
    (hrow : R row row') (h : List.Forall₂ R rows rows') :
    Agree (List.Forall₂ R) (insertSorted before row rows) (insertSorted before row' rows') := by
  induction h with
  | nil => exact .ok (.cons hrow .nil)
  | cons hr hrest ih =>
    rw [insertSorted, insertSorted, hbefore _ _ _ _ hr hrow]
    refine (agree_refl _).bind fun b b' hb => ?_
    subst hb
    rcases b with _ | _
    · exact .ok (.cons hrow (.cons hr hrest))
    · exact ih.bind fun _ _ hsorted => .ok (.cons hr hsorted)

omit [Doubles D] in
lemma sortRows_agree {R : Row D → Row D → Prop} {before : Row D → Row D → Except Throw Bool}
    (hbefore : ∀ a a' b b', R a a' → R b b' → before a b = before a' b')
    (h : List.Forall₂ R rows rows') :
    Agree (List.Forall₂ R) (sortRows before rows) (sortRows before rows') := by
  induction h with
  | nil => exact .ok .nil
  | cons hr _ ih => exact ih.bind fun _ _ hsorted => insertSorted_agree hbefore hr hsorted

lemma ordered_agree {schema : TableSchema} {orderBy : List (String × Bool)}
    (hcols : ∀ key ∈ orderBy, key.1 ∈ cols) (h : Alike cols rows rows') :
    Agree (Alike cols) (ordered schema orderBy rows) (ordered schema orderBy rows') := by
  unfold ordered
  split_ifs
  · exact .ok h
  · exact sortRows_agree (fun _ _ _ _ ha hb => goesBefore_congr hcols ha hb) h

/-! ### The answer -/

omit [Doubles D] in
lemma page_alike (limit offset : Int32) (h : Alike cols rows rows') :
    (page limit offset rows = none ∧ page limit offset rows' = none) ∨
      ∃ xs xs', page limit offset rows = some xs ∧ page limit offset rows' = some xs' ∧
        Alike cols xs xs' := by
  rw [page_eq, page_eq, mapM_rowAt, mapM_rowAt, ← h.length_eq]
  split_ifs
  · exact Or.inr ⟨_, _, rfl, rfl, List.forall₂_take _ (List.forall₂_drop _ h)⟩
  · exact Or.inl ⟨rfl, rfl⟩

omit [Doubles D] in
lemma project_congr {columns : List String} (hcols : ∀ c ∈ columns, c ∈ cols)
    (h : Set.EqOn (column row) (column row') cols) :
    project columns row = project columns row' := by
  refine List.foldl_ext _ _ _ fun result c hc => ?_
  have hsame : row[c]? = row'[c]? := h (hcols c hc)
  rw [hsame]

omit [Doubles D] in
lemma map_project_eq {columns : List String} (hcols : ∀ c ∈ columns, c ∈ cols)
    (h : Alike cols rows rows') : rows.map (project columns) = rows'.map (project columns) := by
  induction h with
  | nil => rfl
  | cons hr _ ih => rw [List.map_cons, List.map_cons, ih, project_congr hcols hr]

/-- **What a `SELECT` answers** rests on the columns that it looks at. -/
theorem executeSelect_alike {db db' : Database D} {stmt : SelectStatement} {table : Table D}
    (htable : db.tables[stmt.tableName]? = some table)
    (htable' : db'.tables[stmt.tableName]? = some { table with rows := rows' })
    (h : Alike (seen table.schema stmt) table.rows rows') :
    executeSelect db stmt = executeSelect db' stmt := by
  by_cases hname : stmt.tableName = ""
  · rw [executeSelect_of_eq_empty hname, executeSelect_of_eq_empty hname]
  rw [executeSelect_of_table hname htable, executeSelect_of_table hname htable']
  dsimp only
  rcases hcolumns : selectColumns table.schema stmt.columns with e | columns
  · rfl
  rw [ok_bind, ok_bind]
  refine Agree.eq ?_
  refine (filterM_agree (fun row row' hrow => ?_) h).bind fun kept kept' hkept => ?_
  · refine looks_selects stmt.whereClause row row' (hrow.mono (Finset.coe_subset.mpr ?_))
    exact Finset.subset_union_right.trans Finset.subset_union_left
  refine (ordered_agree (fun key hkey => ?_) hkept).bind fun sorted sorted' hsorted => ?_
  · exact Finset.mem_coe.mpr (Finset.mem_union_right _
      (List.mem_toFinset.mpr (List.mem_map_of_mem hkey)))
  have hshown : ∀ c ∈ columns, c ∈ (seen table.schema stmt : Set String) := fun c hc => by
    refine Finset.mem_coe.mpr (Finset.mem_union_left _ (Finset.mem_union_left _ ?_))
    rw [shown, hcolumns]
    exact List.mem_toFinset.mpr hc
  rcases page_alike stmt.limit stmt.offset hsorted with ⟨hpage, hpage'⟩ |
    ⟨xs, xs', hpage, hpage', hxs⟩
  · rw [hpage, hpage']
    exact agree_refl _
  · rw [hpage, hpage', Option.map_some, Option.map_some, map_project_eq hshown hxs,
      hxs.length_eq]
    exact agree_refl _

/-! ### What an update leaves -/

lemma assignLoop_frame {schema : TableSchema} {as : List (String × Expression)}
    {colName : String} (hcol : colName ∉ as.map Prod.fst) (row : Row D) :
    column (forEach (assignTurn schema) row as).state colName = column row colName := by
  induction as generalizing row with
  | nil => rfl
  | cons a as ih =>
    obtain ⟨hne, hrest⟩ := List.ne_and_not_mem_of_not_mem_cons hcol
    rw [forEach]
    dsimp only [assignTurn]
    rcases validateColumnExists a.1 schema with e | _
    · rfl
    · rcases evaluateExpression a.2 row with e | v
      · rfl
      · exact (ih hrest _).trans (getElem?_insert_of_ne row (Ne.symm hne) v)

/-- A row that an update has come to, whether it throws there or not. -/
lemma settled_frame (stmt : UpdateStmt) (schema : TableSchema) (row : Row D) :
    Set.EqOn (column (settled stmt schema row)) (column row) (assigned stmt : Set String)ᶜ := by
  intro colName hcol
  unfold settled
  split
  · exact assignLoop_frame (fun hmem => hcol (Finset.mem_coe.mpr (List.mem_toFinset.mpr hmem))) row
  · rfl

omit [Doubles D] in
lemma alike_refl (cols : Set String) (rows : List (Row D)) : Alike cols rows rows :=
  List.forall₂_same.mpr fun _ _ _ _ => rfl

/-- **The rows an `UPDATE` leaves**, also where it throws, differ at most in the columns that it
assigns. -/
lemma updateLoop_alike (stmt : UpdateStmt) (schema : TableSchema) (rows : List (Row D)) :
    let left := forEach (updateTurn stmt schema) ([], 0) rows
    Alike (assigned stmt : Set String)ᶜ rows (left.state.1 ++ left.unvisited) := by
  intro left
  obtain ⟨pre, hrows, hpre⟩ : ∃ pre, rows = pre ++ left.unvisited ∧
      Alike (assigned stmt : Set String)ᶜ pre left.state.1 := by
    refine forEach_inv (P := fun (s : List (Row D) × ℕ) xs => ∃ pre, rows = pre ++ xs ∧
      Alike (assigned stmt : Set String)ᶜ pre s.1) (fun s row after h => ?_) ⟨[], rfl, .nil⟩
    obtain ⟨pre, hrows, hpre⟩ := h
    refine ⟨pre ++ [row], by rw [hrows, List.append_assoc, List.singleton_append], ?_⟩
    rw [updateTurn_rows]
    exact List.rel_append hpre (.cons (settled_frame stmt schema row).symm .nil)
  nth_rewrite 1 [hrows]
  exact List.rel_append hpre (alike_refl _ _)

/-! ### Runs -/

/-- The statement is on another table, a `SELECT`, or an `UPDATE` of columns that `query` does
not look at. -/
def Unseen (schema : TableSchema) (query : SelectStatement) (stmt : Statement) : Prop :=
  named stmt ≠ some query.tableName ∨ (∃ select, stmt = .select select) ∨
    ∃ update, stmt = .update update ∧ Disjoint (assigned update) (seen schema query)

lemma answer_select_congr {db db' : Database D} {query : SelectStatement}
    (h : executeSelect db query = executeSelect db' query) :
    answer db (.select query) = answer db' (.select query) := by
  simp only [answer, execute, h]
  split <;> rfl

lemma Unseen.step {db : Database D} {query : SelectStatement} {table : Table D}
    {stmt : Statement} (h : Unseen table.schema query stmt)
    (htable : db.tables[query.tableName]? = some table) :
    answer (step db stmt) (.select query) = answer db (.select query) ∧
      ∃ table', (SqlConstraints.step db stmt).tables[query.tableName]? = some table' ∧
        table'.schema = table.schema := by
  by_cases hon : named stmt = some query.tableName
  · rcases h.resolve_left (not_not_intro hon) with ⟨select, rfl⟩ | ⟨update, rfl, hdisjoint⟩
    · rw [SqlConstraints.step, execute_select]
      exact ⟨rfl, table, htable, rfl⟩
    · have hname : update.tableName = query.tableName := Option.some.inj hon
      by_cases hempty : update.tableName = ""
      · rw [SqlConstraints.step, execute_update_of_none (Or.inl hempty)]
        exact ⟨rfl, table, htable, rfl⟩
      rw [SqlConstraints.step, execute_update hempty (hname ▸ htable)]
      have hleft := updateLoop_alike update table.schema table.rows
      dsimp only at hleft ⊢
      have htable' := Database.getElem?_setRows db update.tableName query.tableName
        ((forEach (updateTurn update table.schema) ([], 0) table.rows).state.1 ++
          (forEach (updateTurn update table.schema) ([], 0) table.rows).unvisited)
      rw [if_pos hname, htable, Option.map_some] at htable'
      refine ⟨answer_select_congr (executeSelect_alike htable htable' ?_).symm, _, htable', rfl⟩
      exact hleft.imp fun _ _ hrow =>
        hrow.mono (Finset.disjoint_coe.mpr hdisjoint).subset_compl_left
  · have hsame : (SqlConstraints.step db stmt).tables[query.tableName]? =
        db.tables[query.tableName]? := tables_execute_of_other (decide_eq_false hon)
    rw [hsame]
    exact ⟨(execute_congr (decide_eq_true rfl) hsame).1, table, htable, rfl⟩

/-- **What a `SELECT` does not see**: in between it, any statements may be executed on other
tables and any updates, failing or not, of columns that it does not look at, and its answer is
the same. -/
theorem select_unaffected {db : Database D} {query : SelectStatement} {table : Table D}
    (htable : db.tables[query.tableName]? = some table) {stmts : List Statement}
    (h : ∀ stmt ∈ stmts, Unseen table.schema query stmt) :
    answer (run step db stmts) (.select query) = answer db (.select query) := by
  induction stmts generalizing db table with
  | nil => rfl
  | cons stmt stmts ih =>
    obtain ⟨hstmt, hrest⟩ := List.forall_mem_cons.mp h
    obtain ⟨hanswer, table', htable', hschema⟩ := hstmt.step htable
    rw [run_cons, ih htable' (hschema ▸ hrest), hanswer]

/-- The letters in `a`, in their order. -/
def showA : SelectStatement where
  columns := [.identifier "a"]
  tableName := "t"
  whereClause := some (isA "x")
  orderBy := [("a", false)]

theorem select_unaffected_abc :
    answer (run step abcOnly [.update copyA, .createTable { tableName := "u", columns := [] },
        .update nullC]) (.select showA) = answer abcOnly (.select showA) := by
  have htable : abcOnly.tables[showA.tableName]? = some abc := ExtTreeMap.getElem?_insert_self
  refine select_unaffected htable fun stmt hstmt => ?_
  simp only [List.mem_cons, List.not_mem_nil, or_false] at hstmt
  rcases hstmt with rfl | rfl | rfl
  · exact Or.inr (Or.inr ⟨copyA, rfl, by decide⟩)
  · exact Or.inl (by decide)
  · exact Or.inr (Or.inr ⟨nullC, rfl, by decide⟩)

end Dbx4.SqlUnseen
