import Dbx4.SqlAtomic

/-!
What statements make of the rows of a table, for properties of single rows and of pairs.

`INSERT` appends rows, `UPDATE` replaces rows in their places, and `DELETE` drops rows or
leaves empty ones.
-/

namespace Dbx4.SqlRows

open Std Dbx4.ForEach Dbx4.SqlAst Dbx4.SqlValue Dbx4.SqlEval Dbx4.SqlExec Dbx4.SqlAtomic

variable {D : Type}

/-- Each row has the one property, any two the other. -/
structure Meets (P : Row D → Prop) (R : Row D → Row D → Prop) (rows : List (Row D)) : Prop where
  each : ∀ row ∈ rows, P row
  apart : rows.Pairwise R

/-- Every table has the property, which may depend on its schema. -/
def OfTables (T : TableSchema → List (Row D) → Prop) (db : Database D) : Prop :=
  ∀ (name : String) (table : Table D), db.tables[name]? = some table → T table.schema table.rows

/-- Dropping, exchanging and emptying rows keeps the property. -/
structure Closed (T : List (Row D) → Prop) : Prop where
  nil : T []
  perm : ∀ {rows rows'}, T rows → rows.Perm rows' → T rows'
  sublist : ∀ {rows rows'}, T rows → rows'.Sublist rows → T rows'
  empty : ∀ {rows}, T rows → T (∅ :: rows)

section Meets

variable {P : Row D → Prop} {R : Row D → Row D → Prop}

lemma closed_meets (hP : P ∅) (hR : ∀ row, R ∅ row)
    (hsymm : ∀ {row row'}, R row row' → R row' row) : Closed (Meets P R) where
  nil := ⟨by simp, List.Pairwise.nil⟩
  perm h hp := ⟨fun row hrow => h.each row (hp.mem_iff.mpr hrow),
    (hp.pairwise_iff hsymm).mp h.apart⟩
  sublist h hs := ⟨fun row hrow => h.each row (hs.subset hrow), h.apart.sublist hs⟩
  empty h := by
    refine ⟨fun row hrow => ?_, List.pairwise_cons.mpr ⟨fun row _ => hR row, h.apart⟩⟩
    rcases List.mem_cons.mp hrow with rfl | hrow
    · exact hP
    · exact h.each row hrow

lemma meets_concat {rows : List (Row D)} {new : Row D} :
    Meets P R (rows ++ [new]) ↔ Meets P R rows ∧ P new ∧ ∀ row ∈ rows, R row new := by
  constructor
  · intro h
    obtain ⟨hrows, -, hnew⟩ := List.pairwise_append.mp h.apart
    refine ⟨⟨fun row hrow => h.each row (List.mem_append_left _ hrow), hrows⟩, ?_, ?_⟩
    · exact h.each new (List.mem_append_right _ (List.mem_singleton_self _))
    · exact fun row hrow => hnew row hrow new (List.mem_singleton_self _)
  · rintro ⟨h, hP, hR⟩
    refine ⟨fun row hrow => ?_, List.pairwise_append.mpr
      ⟨h.apart, List.pairwise_singleton _ _, fun row hrow row' hrow' => ?_⟩⟩
    · rcases List.mem_append.mp hrow with hrow | hrow
      · exact h.each row hrow
      · rwa [List.mem_singleton.mp hrow]
    · rw [List.mem_singleton.mp hrow']
      exact hR row hrow

end Meets

lemma ofTables_setRows_iff {T : TableSchema → List (Row D) → Prop} {db : Database D}
    (h : OfTables T db) {name : String} {table : Table D}
    (htable : db.tables[name]? = some table) {rows : List (Row D)} :
    OfTables T (db.setRows name rows) ↔ T table.schema rows := by
  refine ⟨fun h' => ?_, fun hrows name' table' htable' => ?_⟩
  · refine h' name { table with rows := rows } ?_
    rw [Database.getElem?_setRows, if_pos rfl, htable]
    rfl
  · rw [Database.getElem?_setRows] at htable'
    split_ifs at htable' with hname
    · subst hname
      rw [htable] at htable'
      cases htable'
      exact hrows
    · exact h name' table' htable'

variable [Doubles D]

/-! ### The loops -/

def insertLeaves (stmt : InsertStmt) (schema : TableSchema) (rows : List (Row D)) :
    List (Row D) :=
  (forEach (insertTurn stmt schema) (rows, 0) stmt.values).state.1

def updateLeaves (stmt : UpdateStmt) (schema : TableSchema) (rows : List (Row D)) :
    List (Row D) :=
  let left := forEach (updateTurn stmt schema) ([], 0) rows
  left.state.1 ++ left.unvisited

def deleteLeaves (stmt : DeleteStmt) (rows : List (Row D)) : List (Row D) :=
  let left := forEach (removeTurn stmt.whereClause) ([], []) rows
  if left.thrown.isSome then left.state.1 ++ left.state.2 ++ left.unvisited else left.state.1

/-- Every row that is appended fits among the rows there are by then. -/
def Appends (P : Row D → Prop) (R : Row D → Row D → Prop) (stmt : InsertStmt)
    (schema : TableSchema) (rows : List (Row D)) : Prop :=
  ∀ (s : List (Row D) × ℕ) valueRow post,
    Passes (insertTurn stmt schema) (rows, 0) stmt.values s (valueRow :: post) →
      ∀ newRow, acceptRow stmt schema s.1 valueRow = .ok newRow →
        P newRow ∧ ∀ row ∈ s.1, R row newRow

/-- Every row that an `UPDATE` gets to has the property as its assignments leave it. -/
def Settles (P : Row D → Prop) (stmt : UpdateStmt) (schema : TableSchema)
    (rows : List (Row D)) : Prop :=
  ∀ (s : List (Row D) × ℕ) row post,
    Passes (updateTurn stmt schema) ([], 0) rows s (row :: post) → P (settled stmt schema row)

lemma meets_insertLeaves_iff {P : Row D → Prop} {R : Row D → Row D → Prop} {stmt : InsertStmt}
    {schema : TableSchema} {rows : List (Row D)} (h : Meets P R rows) :
    Meets P R (insertLeaves stmt schema rows) ↔ Appends P R stmt schema rows := by
  have hstep (s : List (Row D) × ℕ) (valueRow : List Expression) (post : List (List Expression)) :
      Meets P R (insertTurn stmt schema s valueRow post).2.1 ↔
        Meets P R s.1 ∧ ∀ newRow, acceptRow stmt schema s.1 valueRow = .ok newRow →
          P newRow ∧ ∀ row ∈ s.1, R row newRow := by
    rcases hturn : insertTurn stmt schema s valueRow post with ⟨_ | e, s'⟩
    · obtain ⟨newRow, haccept, rfl⟩ := insertTurn_ok hturn
      simp only [meets_concat, haccept, Except.ok.injEq, forall_eq']
    · have hnone : ∀ newRow, acceptRow stmt schema s.1 valueRow ≠ .ok newRow := by
        intro newRow haccept
        simp [insertTurn, haccept] at hturn
      rw [insertTurn_throw hturn]
      exact (and_iff_left fun newRow haccept => absurd haccept (hnone newRow)).symm
  exact (forEach_iff (P := fun s : List (Row D) × ℕ => Meets P R s.1) hstep _ _).trans
    (and_iff_right h)

lemma unvisited_sublist {σ α ε : Type*} (body : σ → α → List α → Option ε × σ) (s : σ)
    (xs : List α) : (forEach body s xs).unvisited.Sublist xs := by
  induction xs generalizing s with
  | nil => exact List.Sublist.refl _
  | cons x xs ih =>
    rw [forEach]
    split
    · exact List.sublist_cons_self x xs
    · exact (ih _).trans (List.sublist_cons_self x xs)

lemma forall_updateLeaves_iff {P : Row D → Prop} {stmt : UpdateStmt} {schema : TableSchema}
    {rows : List (Row D)} (h : ∀ row ∈ rows, P row) :
    (∀ row ∈ updateLeaves stmt schema rows, P row) ↔ Settles P stmt schema rows := by
  have hstep (s : List (Row D) × ℕ) (row : Row D) (post : List (Row D)) :
      (∀ r ∈ (updateTurn stmt schema s row post).2.1, P r) ↔
        (∀ r ∈ s.1, P r) ∧ P (settled stmt schema row) := by
    rw [updateTurn_rows]
    simp [or_imp, forall_and]
  have hloop := forEach_iff (P := fun s : List (Row D) × ℕ => ∀ r ∈ s.1, P r) hstep ([], 0) rows
  refine Iff.trans ⟨fun hleaves row hrow => ?_, fun hstate row hrow => ?_⟩
    (hloop.trans (and_iff_right fun r hr => by cases hr))
  · exact hleaves row (List.mem_append_left _ hrow)
  · rcases List.mem_append.mp hrow with hrow | hrow
    · exact hstate row hrow
    · exact h row ((unvisited_sublist _ _ _).subset hrow)

/-- Where an `UPDATE` throws, the rows behind are left alone. -/
lemma updateLeaves_of_throws {stmt : UpdateStmt} {schema : TableSchema}
    {rows pre post : List (Row D)} {row : Row D}
    (h : ThrowsAt (updateTurn stmt schema) ([], 0) rows pre row post) :
    updateLeaves stmt schema rows =
      pre.map (settled stmt schema) ++ settled stmt schema row :: post := update_left h

lemma updateLeaves_of_passes {stmt : UpdateStmt} {schema : TableSchema} {rows : List (Row D)}
    (h : ∀ pre row post, ¬ ThrowsAt (updateTurn stmt schema) ([], 0) rows pre row post) :
    updateLeaves stmt schema rows = rows.map (settled stmt schema) := by
  rcases forEach_cases (updateTurn stmt schema) ([], 0) rows with
    ⟨t, hpasses, hleft⟩ | ⟨pre, row, post, ht⟩
  · rw [← List.append_nil rows] at hpasses
    unfold updateLeaves
    rw [hleft]
    dsimp only
    rw [update_visited hpasses, List.append_nil]
  · exact absurd ht (h pre row post)

lemma Closed.deleteLeaves {T : List (Row D) → Prop} (hT : Closed T) (stmt : DeleteStmt)
    {rows : List (Row D)} (h : T rows) : T (deleteLeaves stmt rows) := by
  have hleft : let left := forEach (removeTurn stmt.whereClause) ([], []) rows
      T (left.state.1 ++ left.state.2 ++ left.unvisited) := by
    refine forEach_inv
      (P := fun (s : List (Row D) × List (Row D)) xs => T (s.1 ++ s.2 ++ xs))
      (fun s row rest hs => ?_) h
    obtain ⟨kept, gap⟩ := s
    have hsame : T (kept ++ (gap ++ [row]) ++ rest) := by simpa using hs
    rcases hturn : removeTurn stmt.whereClause (kept, gap) row rest with ⟨_ | e, s'⟩
    · rcases removeTurn_ok hturn with ⟨-, rfl⟩ | ⟨-, ⟨rfl, rfl⟩ | ⟨r, rs, rfl, rfl⟩⟩
      · exact hsame
      · simpa using hsame
      · -- the row at the first free position goes, an empty one comes
        have hr : T (kept ++ r :: (rs ++ row :: rest)) := by simpa using hs
        have hrest : T (kept ++ (rs ++ row :: rest)) :=
          hT.sublist hr ((List.sublist_cons_self _ _).append_left kept)
        have hmoved : (∅ :: (kept ++ (rs ++ row :: rest))).Perm
            (kept ++ [row] ++ (rs ++ [∅]) ++ rest) := by
          have hp : (kept ++ (rs ++ row :: rest)).Perm (kept ++ [row] ++ rs ++ rest) := by
            simpa using List.perm_middle.append_left kept
          refine (hp.cons ∅).trans ?_
          have hlast : ((kept ++ [row] ++ rs) ++ (∅ : Row D) :: rest).Perm
              (∅ :: ((kept ++ [row] ++ rs) ++ rest)) := List.perm_middle
          simpa using hlast.symm
        exact hT.perm (hT.empty hrest) hmoved
    · rw [removeTurn_throw hturn]
      exact hsame
  unfold SqlRows.deleteLeaves
  dsimp only
  split_ifs
  · exact hleft
  · refine hT.sublist hleft ?_
    rw [List.append_assoc]
    exact List.sublist_append_left _ _

/-! ### The rows that are left -/

/-- A row that an `INSERT` appends. -/
def Appended (stmt : InsertStmt) (schema : TableSchema) (rows : List (Row D)) (row : Row D) :
    Prop :=
  ∃ (s : List (Row D) × ℕ) (valueRow : List Expression) (post : List (List Expression)),
    Passes (insertTurn stmt schema) (rows, 0) stmt.values s (valueRow :: post) ∧
      acceptRow stmt schema s.1 valueRow = .ok row

/-- A row that an `UPDATE` leaves: as the assignments do if it gets to it, or behind the one at
which it throws. -/
def Updated (stmt : UpdateStmt) (schema : TableSchema) (rows : List (Row D)) (row : Row D) :
    Prop :=
  (∃ (s : List (Row D) × ℕ) (r : Row D) (post : List (Row D)),
    Passes (updateTurn stmt schema) ([], 0) rows s (r :: post) ∧ row = settled stmt schema r) ∨
    ∃ pre r post, ThrowsAt (updateTurn stmt schema) ([], 0) rows pre r post ∧ row ∈ post

lemma mem_insertLeaves {stmt : InsertStmt} {schema : TableSchema} {rows : List (Row D)}
    {row : Row D} :
    row ∈ insertLeaves stmt schema rows ↔ row ∈ rows ∨ Appended stmt schema rows row := by
  have hturn (s : List (Row D) × ℕ) (valueRow : List Expression) (post : List (List Expression)) :
      row ∉ (insertTurn stmt schema s valueRow post).2.1 ↔
        row ∉ s.1 ∧ acceptRow stmt schema s.1 valueRow ≠ .ok row := by
    unfold insertTurn
    rcases haccept : acceptRow stmt schema s.1 valueRow with e | newRow <;>
      simp [haccept, eq_comm]
  have hloop := forEach_iff (P := fun s : List (Row D) × ℕ => row ∉ s.1) hturn (rows, 0)
    stmt.values
  have hnot := not_congr hloop
  unfold Appended
  simpa [or_iff_not_imp_left, insertLeaves] using hnot

lemma mem_updateLeaves {stmt : UpdateStmt} {schema : TableSchema} {rows : List (Row D)}
    {row : Row D} : row ∈ updateLeaves stmt schema rows ↔ Updated stmt schema rows row := by
  have hturn (s : List (Row D) × ℕ) (r : Row D) (post : List (Row D)) :
      row ∉ (updateTurn stmt schema s r post).2.1 ↔
        row ∉ s.1 ∧ row ≠ settled stmt schema r := by
    rw [updateTurn_rows]
    simp
  have hloop := forEach_iff (P := fun s : List (Row D) × ℕ => row ∉ s.1) hturn ([], 0) rows
  have hnot := not_congr hloop
  unfold updateLeaves Updated
  rw [List.mem_append, mem_unvisited_iff]
  refine or_congr_left ?_
  simpa using hnot

lemma deleteLeaves_eq_iff {stmt : DeleteStmt} {rows pre post : List (Row D)} {row : Row D}
    (h : ThrowsAt (removeTurn stmt.whereClause) ([], []) rows pre row post) :
    deleteLeaves stmt rows = rows ↔ pre.Pairwise fun r r' =>
      selects stmt.whereClause r = .ok true → selects stmt.whereClause r' = .ok true := by
  rw [← delete_unseen_iff h]
  unfold deleteLeaves
  rw [if_pos (thrown_isSome_iff.mpr ⟨pre, row, post, h⟩)]

/-- A `DELETE` that throws leaves the rows as they were, or one of them empty. -/
lemma deleteLeaves_of_throws {stmt : DeleteStmt} {rows pre post : List (Row D)} {row : Row D}
    (h : ThrowsAt (removeTurn stmt.whereClause) ([], []) rows pre row post) :
    deleteLeaves stmt rows = rows ∨ ∅ ∈ deleteLeaves stmt rows := by
  have hstep (pre : List (Row D)) (s : List (Row D) × List (Row D)) (r : Row D)
      (rest : List (Row D)) (s' : List (Row D) × List (Row D))
      (hs : pre = s.1 ++ s.2 ∨ ∅ ∈ s.2)
      (hbody : removeTurn stmt.whereClause s r rest = (none, s')) :
      pre ++ [r] = s'.1 ++ s'.2 ∨ ∅ ∈ s'.2 := by
    rcases removeTurn_ok hbody with ⟨-, rfl⟩ | ⟨-, ⟨hgap, rfl⟩ | ⟨r, rs, -, rfl⟩⟩
    · exact hs.imp (fun hpre => by simp [hpre]) (List.mem_append_left _)
    · rw [hgap] at hs
      simpa using hs
    · exact Or.inr (by simp)
  obtain ⟨⟨kept, gap⟩, e, t', hpasses, hthrow, hleft⟩ := h.forEach
  rw [h.1] at hpasses
  have hleaves : deleteLeaves stmt rows = kept ++ (gap ++ [row]) ++ post := by
    unfold deleteLeaves
    rw [hleft, removeTurn_throw hthrow]
    rfl
  rcases hpasses.visited (P := fun pre s => pre = s.1 ++ s.2 ∨ ∅ ∈ s.2) hstep (Or.inl rfl) with
    hpre | hgap
  · rw [hleaves, h.1, hpre]
    exact Or.inl (by simp)
  · rw [hleaves]
    exact Or.inr (by simp [hgap])

/-- A `DELETE` only drops rows, or it throws at one. -/
lemma deleteLeaves_cases (stmt : DeleteStmt) (rows : List (Row D)) :
    deleteLeaves stmt rows ⊆ rows ∨
      ∃ pre row post, ThrowsAt (removeTurn stmt.whereClause) ([], []) rows pre row post := by
  rcases forEach_cases (removeTurn stmt.whereClause) ([], []) rows with ⟨t, hpasses, hleft⟩ | ht
  · have hkept := hpasses.inv (P := fun s xs => s.1 ⊆ rows ∧ xs ⊆ rows)
      (fun s r xs s' hs hbody => ?_) ⟨List.nil_subset _, List.Subset.refl _⟩
    · unfold deleteLeaves
      rw [hleft]
      exact Or.inl hkept.1
    · obtain ⟨hr, hxs⟩ := List.cons_subset.mp hs.2
      rcases removeTurn_ok hbody with ⟨-, rfl⟩ | ⟨-, ⟨-, rfl⟩ | ⟨r', rs, -, rfl⟩⟩
      · exact ⟨hs.1, hxs⟩
      · exact ⟨List.append_subset.mpr ⟨hs.1, by simpa using hr⟩, hxs⟩
      · exact ⟨List.append_subset.mpr ⟨hs.1, by simpa using hr⟩, hxs⟩
  · exact Or.inr ht

/-! ### One statement -/

/-- The table of a statement has the property behind the statement. -/
def Keeps (T : TableSchema → List (Row D) → Prop) (db : Database D) : Statement → Prop
  | .insert stmt => db.OnTable stmt.tableName fun table =>
      T table.schema (insertLeaves stmt table.schema table.rows)
  | .update stmt => db.OnTable stmt.tableName fun table =>
      T table.schema (updateLeaves stmt table.schema table.rows)
  | _ => True

/-- A statement that sets the rows of its table, where there is one. -/
lemma ofTables_iff_onTable {T : TableSchema → List (Row D) → Prop} {db : Database D}
    (h : OfTables T db) {stmt : Statement} {name : String}
    {f : TableSchema → List (Row D) → List (Row D)}
    (hnone : name = "" ∨ db.tables[name]? = none → (execute db stmt).2 = db)
    (hsome : ∀ table, name ≠ "" → db.tables[name]? = some table →
      (execute db stmt).2 = db.setRows name (f table.schema table.rows)) :
    OfTables T (execute db stmt).2 ↔
      db.OnTable name fun table => T table.schema (f table.schema table.rows) := by
  rcases db.onTable_cases name with hname | ⟨table, hname, htable⟩
  · rw [hnone hname]
    exact iff_of_true h (Database.onTable_of_none hname)
  · rw [hsome table hname htable, ofTables_setRows_iff h htable]
    exact (Database.onTable_iff
      (Q := fun table => T table.schema (f table.schema table.rows)) hname htable).symm

/-- A new table has no rows. -/
lemma ofTables_createTable {T : TableSchema → List (Row D) → Prop}
    (hnil : ∀ schema, T schema []) {db : Database D} (h : OfTables T db) (stmt : CreateTableStmt) :
    OfTables T (execute db (.createTable stmt)).2 := by
  rcases executeCreateTable_cases db stmt with ⟨e, he⟩ | ⟨-, he⟩
  · simpa [execute, he] using h
  · simp only [execute, he]
    intro name table htable
    rw [ExtTreeMap.getElem?_insert] at htable
    split_ifs at htable
    · cases htable
      exact hnil _
    · exact h name table htable

/-- **One statement** keeps a property of all tables exactly when the rows that `INSERT` or
`UPDATE` leaves in its table have it. -/
theorem ofTables_execute_iff {T : TableSchema → List (Row D) → Prop}
    (hT : ∀ schema, Closed (T schema)) {db : Database D} (h : OfTables T db) (stmt : Statement) :
    OfTables T (execute db stmt).2 ↔ Keeps T db stmt := by
  cases stmt with
  | createTable stmt =>
    exact iff_of_true (ofTables_createTable (fun schema => (hT schema).nil) h stmt) trivial
  | select stmt => exact iff_of_true (by rwa [execute_select]) trivial
  | other => exact iff_of_true h trivial
  | insert stmt =>
    exact ofTables_iff_onTable (f := insertLeaves stmt) h execute_insert_of_none
      fun table hname htable => congrArg Prod.snd (execute_insert hname htable)
  | update stmt =>
    exact ofTables_iff_onTable (f := updateLeaves stmt) h execute_update_of_none
      fun table hname htable => congrArg Prod.snd (execute_update hname htable)
  | delete stmt =>
    refine iff_of_true ?_ trivial
    refine (ofTables_iff_onTable (f := fun _ => SqlRows.deleteLeaves stmt) h
      execute_delete_of_none fun table hname htable =>
        congrArg Prod.snd (execute_delete hname htable)).mpr ?_
    exact fun hname table htable => (hT _).deleteLeaves stmt (h _ _ htable)

end Dbx4.SqlRows
