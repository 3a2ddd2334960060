import Dbx4.Runs
import Dbx4.SqlRows

/-!
When the rows of every table keep their `NOT NULL` and `UNIQUE` constraints.

`INSERT` checks a row before it is stored, and `DELETE` only drops rows or empties them.
`UPDATE` stores first and checks then: when it throws, the row it was at stays as the
assignments left it. The constraints hold along a run exactly when these rows meet them.
-/

namespace Dbx4.SqlConstraints

open Std Dbx4.ForEach Dbx4.Runs Dbx4.SqlAst Dbx4.SqlValue Dbx4.SqlEval Dbx4.SqlExec
open Dbx4.SqlAtomic Dbx4.SqlRows

variable {D : Type}

/-- No null in a `NOT NULL` column. -/
def NotNull (schema : TableSchema) (row : Row D) : Prop :=
  ∀ colName ∈ schema.notNullColumns, isNullAt row colName = false

variable [Doubles D]

/-- No two non-null values with the same text in a `UNIQUE` column. -/
def NoClash (schema : TableSchema) (row row' : Row D) : Prop :=
  ∀ colName ∈ schema.uniqueColumns, clash colName row row' = false

/-- A row that may stand among others. -/
def Fits (schema : TableSchema) (row : Row D) (others : List (Row D)) : Prop :=
  NotNull schema row ∧ ∀ r ∈ others, NoClash schema row r

structure RowsOk (schema : TableSchema) (rows : List (Row D)) : Prop where
  notNull : ∀ row ∈ rows, NotNull schema row
  unique : rows.Pairwise (NoClash schema)

/-- Every table meets the constraints of its schema. -/
def Constrained (db : Database D) : Prop :=
  ∀ (name : String) (table : Table D),
    db.tables[name]? = some table → RowsOk table.schema table.rows

/-! ### Rows -/

lemma clash_comm (colName : String) (row row' : Row D) :
    clash colName row row' = clash colName row' row := by
  unfold clash
  rcases row[colName]? with _ | v <;> rcases row'[colName]? with _ | w
  · rfl
  · rfl
  · rfl
  · dsimp only
    rw [Bool.and_comm (!v.isNull)]
    simp [eq_comm]

lemma NoClash.symm {schema : TableSchema} {row row' : Row D} (h : NoClash schema row row') :
    NoClash schema row' row := fun colName hcol => (clash_comm _ _ _).trans (h colName hcol)

lemma validateRow_eq_ok {row : Row D} {schema : TableSchema} {rows : List (Row D)} :
    validateRow row schema rows = .ok () ↔ Fits schema row rows := by
  unfold validateRow
  rcases hnull : schema.notNullColumns.toList.find? fun colName => isNullAt row colName with
    _ | colName
  · have hnotNull : NotNull schema row := by
      intro colName hcol
      have := List.find?_eq_none.mp hnull colName (ExtTreeSet.mem_toList.mpr hcol)
      simpa using this
    rcases hunique : schema.uniqueColumns.toList.find? fun colName =>
        rows.any fun existingRow => clash colName row existingRow with _ | colName
    · refine iff_of_true rfl ⟨hnotNull, fun r hr colName hcol => ?_⟩
      have := List.find?_eq_none.mp hunique colName (ExtTreeSet.mem_toList.mpr hcol)
      simp only [List.any_eq_true, not_exists, not_and, Bool.not_eq_true] at this
      exact this r hr
    · refine iff_of_false (by simp) fun h => ?_
      have hany := List.find?_some hunique
      obtain ⟨r, hr, hclash⟩ := List.any_eq_true.mp hany
      have hcol := ExtTreeSet.mem_toList.mp (List.mem_of_find?_eq_some hunique)
      rw [h.2 r hr colName hcol] at hclash
      cases hclash
  · refine iff_of_false (by simp) fun h => ?_
    have hcol := ExtTreeSet.mem_toList.mp (List.mem_of_find?_eq_some hnull)
    have hisNull := List.find?_some hnull
    rw [h.1 colName hcol] at hisNull
    cases hisNull

lemma rowsOk_eq_meets (schema : TableSchema) :
    RowsOk (D := D) schema = Meets (NotNull schema) (NoClash schema) := by
  ext rows
  exact ⟨fun h => ⟨h.notNull, h.unique⟩, fun h => ⟨h.each, h.apart⟩⟩

lemma closed_rowsOk (schema : TableSchema) : Closed (RowsOk (D := D) schema) := by
  rw [rowsOk_eq_meets]
  refine closed_meets ?_ ?_ NoClash.symm
  · intro colName _
    simp [isNullAt]
  · intro row colName _
    simp [clash]

lemma rowsOk_cons {schema : TableSchema} {row : Row D} {rows : List (Row D)} :
    RowsOk schema (row :: rows) ↔ Fits schema row rows ∧ RowsOk schema rows := by
  refine ⟨fun h => ?_, fun ⟨hfits, h⟩ => ⟨fun r hr => ?_, ?_⟩⟩
  · obtain ⟨hclash, hunique⟩ := List.pairwise_cons.mp h.unique
    exact ⟨⟨h.notNull row List.mem_cons_self, hclash⟩,
      fun r hr => h.notNull r (List.mem_cons_of_mem _ hr), hunique⟩
  · rcases List.mem_cons.mp hr with rfl | hr
    · exact hfits.1
    · exact h.notNull r hr
  · exact List.pairwise_cons.mpr ⟨hfits.2, h.unique⟩

lemma rowsOk_middle {schema : TableSchema} {row : Row D} {pre post : List (Row D)} :
    RowsOk schema (pre ++ row :: post) ↔
      Fits schema row (pre ++ post) ∧ RowsOk schema (pre ++ post) := by
  rw [← rowsOk_cons]
  have hclosed := closed_rowsOk (D := D) schema
  exact ⟨fun h => hclosed.perm h List.perm_middle, fun h => hclosed.perm h List.perm_middle.symm⟩

/-! ### The loops -/

/-- `INSERT` checks what it appends. -/
lemma insert_rowsOk {stmt : InsertStmt} {schema : TableSchema} {rows : List (Row D)}
    (h : RowsOk schema rows) : RowsOk schema (insertLeaves stmt schema rows) := by
  rw [rowsOk_eq_meets] at h ⊢
  refine (meets_insertLeaves_iff h).mpr fun s valueRow post _ newRow haccept => ?_
  obtain ⟨hnotNull, hclash⟩ : Fits schema newRow s.1 := validateRow_eq_ok.mp (acceptRow_ok haccept)
  exact ⟨hnotNull, fun row hrow => (hclash row hrow).symm⟩

/-- The rows of a loop of `UPDATE` keep the constraints as long as it does not throw. -/
lemma update_passes_rowsOk {stmt : UpdateStmt} {schema : TableSchema} {rows xs : List (Row D)}
    {t : List (Row D) × ℕ} (h : RowsOk schema rows)
    (hpasses : Passes (updateTurn stmt schema) ([], 0) rows t xs) :
    RowsOk schema (t.1 ++ xs) := by
  refine hpasses.inv (P := fun (s : List (Row D) × ℕ) xs => RowsOk schema (s.1 ++ xs))
    (fun s row after s' hs hbody => ?_) h
  have hrows := updateTurn_rows stmt schema s row after
  rw [hbody] at hrows
  rw [hrows, List.append_assoc, List.singleton_append]
  rcases updateTurn_ok hbody with hsame | hvalid
  · rwa [hsame]
  · have hfits := validateRow_eq_ok.mp hvalid
    refine rowsOk_middle.mpr ⟨⟨hfits.1, fun r hr => hfits.2 r ?_⟩, (rowsOk_middle.mp hs).2⟩
    rcases List.mem_append.mp hr with hr | hr
    · exact List.mem_append_left _ hr
    · exact List.mem_append_right _ (List.mem_cons_of_mem _ hr)

/-- Where an `UPDATE` throws, its rows keep the constraints exactly when the row it is at
does. -/
lemma update_throws_rowsOk {stmt : UpdateStmt} {schema : TableSchema}
    {rows pre post : List (Row D)} {row : Row D} (h : RowsOk schema rows)
    (ht : ThrowsAt (updateTurn stmt schema) ([], 0) rows pre row post) :
    RowsOk schema (updateLeaves stmt schema rows) ↔
      Fits schema (settled stmt schema row) (pre.map (settled stmt schema) ++ post) := by
  obtain ⟨t, e, t', hpasses, -, -⟩ := ht.forEach
  have hbefore := update_passes_rowsOk h hpasses
  rw [ht.1] at hpasses
  rw [update_visited hpasses] at hbefore
  rw [updateLeaves_of_throws ht, rowsOk_middle]
  exact and_iff_left (rowsOk_middle.mp hbefore).2

/-! ### Statements -/

/-- Where an `UPDATE` throws, the row as the assignments left it meets the constraints. -/
def ThrowsAtFitting (db : Database D) : Statement → Prop
  | .update stmt => db.OnTable stmt.tableName fun table => ∀ pre row post,
      ThrowsAt (updateTurn stmt table.schema) ([], 0) table.rows pre row post →
        Fits table.schema (settled stmt table.schema row)
          (pre.map (settled stmt table.schema) ++ post)
  | _ => True

def step (db : Database D) (stmt : Statement) : Database D := (execute db stmt).2

/-- When a property of all tables holds after every statement of a run: exactly when every
statement meets the condition under which it keeps the property. -/
lemma always_ofTables_iff {T : TableSchema → List (Row D) → Prop}
    {cond : Database D → Statement → Prop}
    (hstep : ∀ db stmt, OfTables T db → (OfTables T (step db stmt) ↔ cond db stmt))
    (stmts : List Statement) :
    Always step (OfTables T) ({} : Database D) stmts ↔ Along step cond ({} : Database D) stmts := by
  have hempty : OfTables T ({} : Database D) := fun name table htable => by simp at htable
  exact always_iff_along hstep hempty

/-- **One statement**: it keeps the constraints exactly when it is no `UPDATE` that throws at a
row left in breach of them. -/
theorem constrained_step_iff {db : Database D} (h : Constrained db) (stmt : Statement) :
    Constrained (step db stmt) ↔ ThrowsAtFitting db stmt := by
  refine (ofTables_execute_iff closed_rowsOk h stmt).trans ?_
  cases stmt with
  | insert stmt =>
    exact iff_of_true (fun hname table htable => insert_rowsOk (h _ _ htable)) trivial
  | update stmt =>
    refine Database.onTable_congr fun table htable =>
      ⟨fun hrows pre row post ht => ?_, fun hfits => ?_⟩
    · exact (update_throws_rowsOk (h _ _ htable) ht).mp hrows
    · rcases forEach_cases (updateTurn stmt table.schema) ([], 0) table.rows with
        ⟨t, hpasses, hleft⟩ | ⟨pre, row, post, ht⟩
      · unfold updateLeaves
        rw [hleft]
        exact update_passes_rowsOk (h _ _ htable) hpasses
      · exact (update_throws_rowsOk (h _ _ htable) ht).mpr (hfits pre row post ht)
  | _ => exact Iff.rfl

/-! ### Runs -/

/-- The constraints hold after every statement of a run from the empty database. -/
def AlwaysConstrained (D : Type) [Doubles D] (stmts : List Statement) : Prop :=
  ∀ pre post, stmts = pre ++ post → Constrained (run step ({} : Database D) pre)

/-- **When the constraints hold after every statement of a run**: exactly when the row at which
an `UPDATE` of the run throws, as its assignments left it, always meets them. -/
theorem alwaysConstrained_iff (D : Type) [Doubles D] (stmts : List Statement) :
    AlwaysConstrained D stmts ↔ Along step ThrowsAtFitting ({} : Database D) stmts :=
  always_ofTables_iff (fun _ stmt h => constrained_step_iff h stmt) stmts

/-- An `UPDATE` that stores a null where none may be, and throws behind it. -/
theorem not_alwaysConstrained_update : ¬ AlwaysConstrained ℚ
    [.createTable ⟨"t", [{ name := "a", type := .INT, notNull := true }]⟩,
      .insert { tableName := "t", values := [[.literal "1" .NUMBER]] },
      .update ⟨"t", [("a", .literal "NULL" .NULL_KEYWORD)], none⟩] := by
  intro h
  have hconstrained := h _ [] (List.append_nil _).symm "t"
  revert hconstrained
  generalize hdb : run step ({} : Database ℚ) _ = db
  have hnull : (db.tables["t"]?.any fun table => table.rows.any fun row =>
      isNullAt row "a" && decide ("a" ∈ table.schema.notNullColumns)) = true := by
    rw [← hdb]
    decide
  intro hconstrained
  rcases htable : db.tables["t"]? with _ | table <;> rw [htable] at hnull
  · cases hnull
  obtain ⟨row, hrow, hrownull⟩ := List.any_eq_true.mp hnull
  obtain ⟨hisNull, hcol⟩ := Bool.and_eq_true_iff.mp hrownull
  have := (hconstrained table htable).notNull row hrow "a" (by simpa using hcol)
  rw [this] at hisNull
  cases hisNull

end Dbx4.SqlConstraints
