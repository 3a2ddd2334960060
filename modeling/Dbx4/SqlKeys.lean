import Dbx4.SqlConstraints

/-!
When the rows of every table keep their primary key.

The columns of the primary key are recorded, and no check of a row looks at them. The key
holds along a run exactly when every row an `INSERT` appends, and every row whose key an
`UPDATE` changes, fits among the others.
-/

namespace Dbx4.SqlKeys

open Std Dbx4.ForEach Dbx4.Runs Dbx4.SqlAst Dbx4.SqlValue Dbx4.SqlEval Dbx4.SqlExec
open Dbx4.SqlRows Dbx4.SqlConstraints

variable {D : Type}

/-- No null in a column of the primary key. -/
def KeyNotNull (schema : TableSchema) (row : Row D) : Prop :=
  ∀ colName ∈ schema.primaryKeys, isNullAt row colName = false

variable [Doubles D]

/-- The rows do not agree on the primary key, if there is one: as for a `UNIQUE` column, values
agree that have the same text. -/
def KeyApart (schema : TableSchema) (row row' : Row D) : Prop :=
  (∃ colName, colName ∈ schema.primaryKeys) →
    ∃ colName ∈ schema.primaryKeys, clash colName row row' = false

def KeyOk (schema : TableSchema) (rows : List (Row D)) : Prop :=
  Meets (KeyNotNull schema) (KeyApart schema) rows

/-- Every table meets its primary key. -/
def Keyed (db : Database D) : Prop := OfTables KeyOk db

/-- The assignments change a value of the row's key. -/
def ChangesKey (stmt : UpdateStmt) (schema : TableSchema) (row : Row D) : Prop :=
  ∃ colName ∈ schema.primaryKeys, (settled stmt schema row)[colName]? ≠ row[colName]?

/-- Of the rows an `UPDATE` visits, those whose key it changes fit among the others and among
the rest. -/
structure Rekeys (stmt : UpdateStmt) (schema : TableSchema) (visited rest : List (Row D)) :
    Prop where
  notNull : ∀ row ∈ visited, ChangesKey stmt schema row →
    KeyNotNull schema (settled stmt schema row)
  apart : visited.Pairwise fun row row' =>
    ChangesKey stmt schema row ∨ ChangesKey stmt schema row' →
      KeyApart schema (settled stmt schema row) (settled stmt schema row')
  apartRest : ∀ row ∈ visited, ∀ row' ∈ rest, ChangesKey stmt schema row →
    KeyApart schema (settled stmt schema row) row'

/-- What no check sees to: a row that is appended fits the rows there are, and so does a row
whose key is changed, up to one where the `UPDATE` throws. -/
def KeepsKey (db : Database D) : Statement → Prop
  | .insert stmt => db.OnTable stmt.tableName fun table =>
      Appends (KeyNotNull table.schema) (KeyApart table.schema) stmt table.schema table.rows
  | .update stmt => db.OnTable stmt.tableName fun table =>
      (∀ pre row post, ThrowsAt (updateTurn stmt table.schema) ([], 0) table.rows pre row post →
        Rekeys stmt table.schema (pre ++ [row]) post) ∧
      ((∀ pre row post,
          ¬ ThrowsAt (updateTurn stmt table.schema) ([], 0) table.rows pre row post) →
        Rekeys stmt table.schema table.rows [])
  | _ => True

/-! ### Rows -/

lemma closed_keyOk (schema : TableSchema) : Closed (KeyOk (D := D) schema) := by
  refine closed_meets (fun colName _ => by simp [isNullAt]) (fun row hkey => ?_)
    fun {row row'} h hkey => ?_
  · obtain ⟨colName, hcol⟩ := hkey
    exact ⟨colName, hcol, by simp [clash]⟩
  · obtain ⟨colName, hcol, hclash⟩ := h hkey
    exact ⟨colName, hcol, (clash_comm _ _ _).trans hclash⟩

/-- The same values in the columns of the key. -/
def SameKey (schema : TableSchema) (row row' : Row D) : Prop :=
  ∀ colName ∈ schema.primaryKeys, row[colName]? = row'[colName]?

lemma sameKey_of_not_changesKey {stmt : UpdateStmt} {schema : TableSchema} {row : Row D}
    (h : ¬ ChangesKey stmt schema row) : SameKey schema row (settled stmt schema row) := by
  intro colName hcol
  by_contra hne
  exact h ⟨colName, hcol, Ne.symm hne⟩

omit [Doubles D] in
lemma KeyNotNull.congr {schema : TableSchema} {row row' : Row D} (hsame : SameKey schema row row')
    (h : KeyNotNull schema row) : KeyNotNull schema row' := by
  intro colName hcol
  have hnull := h colName hcol
  unfold isNullAt at hnull ⊢
  rwa [← hsame colName hcol]

lemma KeyApart.congr {schema : TableSchema} {row₁ row₁' row₂ row₂' : Row D}
    (hsame₁ : SameKey schema row₁ row₁') (hsame₂ : SameKey schema row₂ row₂')
    (h : KeyApart schema row₁ row₂) : KeyApart schema row₁' row₂' := by
  intro hkey
  obtain ⟨colName, hcol, hclash⟩ := h hkey
  refine ⟨colName, hcol, ?_⟩
  unfold clash at hclash ⊢
  rwa [← hsame₁ colName hcol, ← hsame₂ colName hcol]

/-- Rows with a key keep it under an `UPDATE` exactly when those with a changed key fit. -/
lemma keyOk_settled_iff {stmt : UpdateStmt} {schema : TableSchema} {visited rest : List (Row D)}
    (h : KeyOk schema (visited ++ rest)) :
    KeyOk schema (visited.map (settled stmt schema) ++ rest) ↔
      Rekeys stmt schema visited rest := by
  obtain ⟨hvisited, hrest, hbetween⟩ := List.pairwise_append.mp h.apart
  constructor
  · intro hafter
    obtain ⟨hvisited', -, hbetween'⟩ := List.pairwise_append.mp hafter.apart
    refine ⟨fun row hrow _ => hafter.each _ ?_, ?_, fun row hrow row' hrow' _ => ?_⟩
    · exact List.mem_append_left _ (List.mem_map_of_mem hrow)
    · refine (List.pairwise_map.mp hvisited').imp ?_
      intro row row' hapart _
      exact hapart
    · exact hbetween' _ (List.mem_map_of_mem hrow) row' hrow'
  · intro hrekeys
    refine ⟨fun row hrow => ?_, List.pairwise_append.mpr
      ⟨List.pairwise_map.mpr ?_, hrest, fun row hrow row' hrow' => ?_⟩⟩
    · rcases List.mem_append.mp hrow with hrow | hrow
      · obtain ⟨row, hmem, rfl⟩ := List.mem_map.mp hrow
        by_cases hchanges : ChangesKey stmt schema row
        · exact hrekeys.notNull row hmem hchanges
        · exact (h.each row (List.mem_append_left _ hmem)).congr
            (sameKey_of_not_changesKey hchanges)
      · exact h.each row (List.mem_append_right _ hrow)
    · refine (hvisited.and hrekeys.apart).imp fun {row row'} hboth => ?_
      by_cases hchanges : ChangesKey stmt schema row ∨ ChangesKey stmt schema row'
      · exact hboth.2 hchanges
      · obtain ⟨hrow, hrow'⟩ := not_or.mp hchanges
        exact hboth.1.congr (sameKey_of_not_changesKey hrow) (sameKey_of_not_changesKey hrow')
    · obtain ⟨row, hmem, rfl⟩ := List.mem_map.mp hrow
      by_cases hchanges : ChangesKey stmt schema row
      · exact hrekeys.apartRest row hmem row' hrow' hchanges
      · exact (hbetween row hmem row' hrow').congr (sameKey_of_not_changesKey hchanges)
          fun _ _ => rfl

lemma keyOk_updateLeaves_iff {stmt : UpdateStmt} {schema : TableSchema} {rows : List (Row D)}
    (h : KeyOk schema rows) :
    KeyOk schema (updateLeaves stmt schema rows) ↔
      (∀ pre row post, ThrowsAt (updateTurn stmt schema) ([], 0) rows pre row post →
        Rekeys stmt schema (pre ++ [row]) post) ∧
      ((∀ pre row post, ¬ ThrowsAt (updateTurn stmt schema) ([], 0) rows pre row post) →
        Rekeys stmt schema rows []) := by
  have hthrows pre row post (ht : ThrowsAt (updateTurn stmt schema) ([], 0) rows pre row post) :
      KeyOk schema (updateLeaves stmt schema rows) ↔ Rekeys stmt schema (pre ++ [row]) post := by
    rw [updateLeaves_of_throws ht, ← keyOk_settled_iff (by rwa [← List.append_cons, ← ht.1]),
      List.map_append, List.map_singleton, ← List.append_cons]
  have hpasses
      (hnone : ∀ pre row post, ¬ ThrowsAt (updateTurn stmt schema) ([], 0) rows pre row post) :
      KeyOk schema (updateLeaves stmt schema rows) ↔ Rekeys stmt schema rows [] := by
    rw [updateLeaves_of_passes hnone, ← keyOk_settled_iff (by rwa [List.append_nil]),
      List.append_nil]
  constructor
  · exact fun hok => ⟨fun pre row post ht => (hthrows pre row post ht).mp hok,
      fun hnone => (hpasses hnone).mp hok⟩
  · rintro ⟨hrekeys, hrekeys'⟩
    by_cases hex : ∃ pre row post, ThrowsAt (updateTurn stmt schema) ([], 0) rows pre row post
    · obtain ⟨pre, row, post, ht⟩ := hex
      exact (hthrows pre row post ht).mpr (hrekeys pre row post ht)
    · have hnone pre row post (ht : ThrowsAt (updateTurn stmt schema) ([], 0) rows pre row post) :
          False := hex ⟨pre, row, post, ht⟩
      exact (hpasses hnone).mpr (hrekeys' hnone)

/-! ### Statements and runs -/

/-- **One statement** keeps the primary keys exactly when it meets the condition. -/
theorem keyed_step_iff {db : Database D} (h : Keyed db) (stmt : Statement) :
    Keyed (step db stmt) ↔ KeepsKey db stmt := by
  refine (ofTables_execute_iff closed_keyOk h stmt).trans ?_
  cases stmt with
  | insert stmt =>
    exact Database.onTable_congr fun table htable => meets_insertLeaves_iff (h _ _ htable)
  | update stmt =>
    exact Database.onTable_congr fun table htable => keyOk_updateLeaves_iff (h _ _ htable)
  | _ => exact Iff.rfl

/-- **When the primary keys hold after every statement of a run**: exactly when every row that
an `INSERT` of the run appends fits among the rows there are by then, and so does every row
whose key an `UPDATE` of the run changes. -/
theorem always_keyed_iff (D : Type) [Doubles D] (stmts : List Statement) :
    Always step Keyed ({} : Database D) stmts ↔ Along step KeepsKey ({} : Database D) stmts :=
  always_ofTables_iff (fun _ stmt h => keyed_step_iff h stmt) stmts

/-- An `INSERT` of one key twice. -/
theorem not_always_keyed : ¬ Always step Keyed ({} : Database ℚ)
    [.createTable ⟨"t", [{ name := "a", type := .INT, primaryKey := true }]⟩,
      .insert {
        tableName := "t"
        values := [[.literal "1" .NUMBER], [.literal "1" .NUMBER]] }] := by
  intro h
  have hkeyed := h _ [] (List.append_nil _).symm "t"
  revert hkeyed
  generalize hdb : run step ({} : Database ℚ) _ = db
  have hsame : (db.tables["t"]?.any fun table => table.schema.primaryKeys.toList = ["a"] &&
      table.rows[0]?.any fun row => table.rows[1]?.any fun row' => clash "a" row row') = true := by
    rw [← hdb]
    decide
  intro hkeyed
  obtain ⟨table, htable, hsame⟩ := (Option.any_eq_true _ _).mp hsame
  obtain ⟨hkeys, hsame⟩ := Bool.and_eq_true_iff.mp hsame
  obtain ⟨row, hrow, hsame⟩ := (Option.any_eq_true _ _).mp hsame
  obtain ⟨row', hrow', hclash⟩ := (Option.any_eq_true _ _).mp hsame
  have hmem (colName : String) : colName ∈ table.schema.primaryKeys ↔ colName = "a" := by
    rw [← ExtTreeSet.mem_toList, of_decide_eq_true hkeys, List.mem_singleton]
  obtain ⟨h0, rfl⟩ := List.getElem?_eq_some_iff.mp hrow
  obtain ⟨h1, rfl⟩ := List.getElem?_eq_some_iff.mp hrow'
  obtain ⟨colName, hcol, hno⟩ := List.pairwise_iff_getElem.mp (hkeyed table htable).apart 0 1
    h0 h1 Nat.zero_lt_one ⟨"a", (hmem "a").mpr rfl⟩
  rw [(hmem colName).mp hcol, hclash] at hno
  cases hno

end Dbx4.SqlKeys
