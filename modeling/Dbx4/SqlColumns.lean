import Dbx4.Footprint
import Dbx4.SqlTables
import Dbx4.SqlMeaning

/-!
What statements read and write, column by column.

An expression looks at the columns it names and at no others, so a statement has a footprint:
`UPDATE` writes the columns it assigns and reads those of its clause and its right-hand sides,
`DELETE` reads those of its clause. Statements that do not touch what others read or write can
be reordered.
-/

namespace Dbx4.SqlColumns

open Std Dbx4.ForEach Dbx4.Maps Dbx4.Runs Dbx4.Assign Dbx4.SqlAst Dbx4.SqlValue Dbx4.SqlEval
  Dbx4.SqlExec Dbx4.SqlUpdate Dbx4.SqlMeaning Dbx4.SqlTables Dbx4.SqlConstraints
  Dbx4.Footprint

variable {D : Type}

/-! ### Expressions -/

def names : Expression → Finset String
  | .identifier name => {name}
  | .binaryOp left right _ => names left ∪ names right
  | .unaryOp operand _ => names operand
  | _ => ∅

def clauseNames (whereClause : Option Expression) : Finset String :=
  whereClause.elim ∅ names

/-- A row, as its columns show it. -/
def column (row : Row D) (colName : String) : Option (Value D) := row[colName]?

variable [Doubles D]

lemma looks_evaluateExpression (e : Expression) :
    Looks (column (D := D)) (evaluateExpression e) (names e : Set String) := by
  induction e with
  | literal value type => exact fun _ _ _ => rfl
  | other => exact fun _ _ _ => rfl
  | identifier name =>
    intro row row' h
    have hname : row[name]? = row'[name]? := h (by simp [names])
    rw [evaluateExpression, evaluateExpression, hname]
  | unaryOp operand op ih =>
    intro row row' h
    rw [evaluateExpression, evaluateExpression, ih row row' h]
  | binaryOp left right op ihl ihr =>
    intro row row' h
    rw [names, Finset.coe_union, Set.eqOn_union] at h
    rw [evaluateExpression, evaluateExpression, ihl row row' h.1, ihr row row' h.2]

lemma looks_evaluateWhereClause (e : Expression) :
    Looks (column (D := D)) (evaluateWhereClause e) (names e : Set String) := by
  induction e with
  | binaryOp left right op ihl ihr =>
    intro row row' h
    rw [names, Finset.coe_union, Set.eqOn_union] at h
    have hl := looks_evaluateExpression left row row' h.1
    have hr := looks_evaluateExpression right row row' h.2
    unfold evaluateWhereClause evaluateEquals
    rw [ihl row row' h.1, ihr row row' h.2, hl, hr]
  | _ => exact fun _ _ _ => rfl

lemma looks_selects (whereClause : Option Expression) :
    Looks (column (D := D)) (selects whereClause) (clauseNames whereClause : Set String) := by
  rcases whereClause with _ | clause
  · exact fun _ _ _ => rfl
  · exact looks_evaluateWhereClause clause

/-! ### Assignments -/

/-- The columns an `UPDATE` assigns. -/
def assigned (stmt : UpdateStmt) : Finset String := (stmt.assignments.map Prod.fst).toFinset

/-- The columns on the right-hand sides. -/
def assignedFrom (stmt : UpdateStmt) : Finset String :=
  stmt.assignments.foldr (fun a cols => names a.2 ∪ cols) ∅

lemma names_subset_assignedFrom {stmt : UpdateStmt} {a : String × Expression}
    (h : a ∈ stmt.assignments) : names a.2 ⊆ assignedFrom stmt := by
  unfold assignedFrom
  generalize stmt.assignments = as at h
  induction as with
  | nil => cases h
  | cons b as ih =>
    rw [List.foldr_cons]
    rcases List.mem_cons.mp h with rfl | h
    · exact Finset.subset_union_left
    · exact (ih h).trans Finset.subset_union_right

omit [Doubles D] in
lemma agree_insert {cols : Set String} {row row' : Row D}
    (h : Set.EqOn (column row) (column row') cols) (colName : String) (v : Value D) :
    Set.EqOn (column (row.insert colName v)) (column (row'.insert colName v))
      (cols ∪ {colName}) := by
  intro k hk
  unfold column
  by_cases hkey : colName = k
  · subst hkey
    rw [ExtTreeMap.getElem?_insert_self, ExtTreeMap.getElem?_insert_self]
  · rw [getElem?_insert_of_ne _ hkey, getElem?_insert_of_ne _ hkey]
    exact h (hk.resolve_right (Ne.symm hkey))

/-- Assignments to two rows that agree on what they read: both throw, or the rows agree on
that and on what is assigned. -/
lemma agree_assignAll {cols : Set String} {as : List (String × Expression)}
    (hreads : ∀ a ∈ as, (names a.2 : Set String) ⊆ cols) {row row' : Row D}
    (h : Set.EqOn (column row) (column row') cols) :
    (∃ e, assignAll evaluateExpression as row = .error e ∧
        assignAll evaluateExpression as row' = .error e) ∨
      ∃ last last', assignAll evaluateExpression as row = .ok last ∧
        assignAll evaluateExpression as row' = .ok last' ∧
        Set.EqOn (column last) (column last') (cols ∪ {k | k ∈ as.map Prod.fst}) := by
  induction as generalizing row row' cols with
  | nil => exact Or.inr ⟨row, row', rfl, rfl, by simpa using h⟩
  | cons a as ih =>
    obtain ⟨hfirst, hrest⟩ := List.forall_mem_cons.mp hreads
    have hval := looks_evaluateExpression (D := D) a.2 row row' (h.mono hfirst)
    rw [assignAll, assignAll, ← hval]
    rcases evaluateExpression a.2 row with e | v
    · exact Or.inl ⟨e, rfl, rfl⟩
    · have hreads' : ∀ b ∈ as, (names b.2 : Set String) ⊆ cols ∪ {a.1} := fun b hb =>
        (hrest b hb).trans Set.subset_union_left
      rcases ih hreads' (agree_insert h a.1 v) with hthrows | ⟨last, last', h₁, h₂, hagree⟩
      · exact Or.inl hthrows
      · refine Or.inr ⟨last, last', h₁, h₂, hagree.mono ?_⟩
        intro k hk
        rcases hk with hk | hk
        · exact Or.inl (Or.inl hk)
        · rcases List.mem_cons.mp hk with rfl | hk
          · exact Or.inl (Or.inr rfl)
          · exact Or.inr hk

lemma frame_assignAll {as : List (String × Expression)} {row last : Row D}
    (h : assignAll evaluateExpression as row = .ok last) {colName : String}
    (hcol : colName ∉ as.map Prod.fst) : column last colName = column row colName :=
  getElem?_assignAll_of_notMem hcol h

/-! ### UPDATE -/

def readBy (stmt : UpdateStmt) : Finset String :=
  clauseNames stmt.whereClause ∪ assignedFrom stmt

lemma looks_isMatch (stmt : UpdateStmt) :
    Looks (column (D := D)) (isMatch stmt) (clauseNames stmt.whereClause : Set String) := by
  intro row row' h
  rw [isMatch, isMatch, looks_selects _ row row' h]

/-- **What an `UPDATE` touches** of a row. -/
theorem touches_updatedRow (stmt : UpdateStmt) :
    Touches (column (D := D)) (updatedRow stmt) (readBy stmt : Set String)
      (assigned stmt : Set String) where
  frame row colName hcol := by
    have hnot : colName ∉ stmt.assignments.map Prod.fst := fun hmem =>
      hcol (Finset.mem_coe.mpr (List.mem_toFinset.mpr hmem))
    unfold updatedRow
    rcases isMatch stmt row with _ | _
    · rfl
    · rcases hassign : assignAll evaluateExpression stmt.assignments row with e | last
      · rfl
      · exact frame_assignAll hassign hnot
  agree cols hcols row row' h := by
    rw [readBy, Finset.coe_union, Set.union_subset_iff] at hcols
    have hreads : ∀ a ∈ stmt.assignments, (names a.2 : Set String) ⊆ cols := fun a ha =>
      (Finset.coe_subset.mpr (names_subset_assignedFrom ha)).trans hcols.2
    unfold updatedRow
    rw [looks_isMatch stmt row row' (h.mono hcols.1)]
    rcases isMatch stmt row' with _ | _
    · exact h
    · rcases agree_assignAll hreads h with ⟨e, he, he'⟩ | ⟨last, last', h₁, h₂, hagree⟩
      · rw [he, he']
        exact h
      · rw [h₁, h₂]
        exact hagree.mono Set.subset_union_left

/-! ### Statements that go along the rows -/

def reads : Statement → Finset String
  | .update stmt => readBy stmt
  | .delete stmt => clauseNames stmt.whereClause
  | _ => ∅

def writes : Statement → Finset String
  | .update stmt => assigned stmt
  | _ => ∅

/-- `UPDATE` and `DELETE`. -/
def RowWise : Statement → Prop
  | .update _ | .delete _ => True
  | _ => False

/-- What becomes of a row. -/
def treated : Statement → Row D → Option (Row D)
  | .update stmt, row => some (updatedRow stmt row)
  | .delete stmt, row => if chosen stmt.whereClause row then none else some row
  | _, row => some row

omit [Doubles D] in
lemma column_injective : Function.Injective (column (D := D)) := fun _ _ h =>
  ExtTreeMap.ext_getElem? (congrFun h)

lemma looks_chosen (whereClause : Option Expression) :
    Looks (column (D := D)) (chosen whereClause) (clauseNames whereClause : Set String) := by
  intro row row' h
  rw [chosen, chosen, looks_selects _ row row' h]

/-- Neither statement writes what the other reads or writes. -/
structure Clear (stmt stmt' : Statement) : Prop where
  rowWise : RowWise stmt ∧ RowWise stmt'
  unread : Disjoint (writes stmt) (reads stmt')
  unread' : Disjoint (writes stmt') (reads stmt)
  unwritten : Disjoint (writes stmt) (writes stmt')

/-- The statements are about two tables, or about columns of their own. -/
def Apart (stmt stmt' : Statement) : Prop := named stmt ≠ named stmt' ∨ Clear stmt stmt'

lemma Clear.symm {stmt stmt' : Statement} (h : Clear stmt stmt') : Clear stmt' stmt where
  rowWise := h.rowWise.symm
  unread := h.unread'
  unread' := h.unread
  unwritten := h.unwritten.symm

lemma Apart.symm {stmt stmt' : Statement} (h : Apart stmt stmt') : Apart stmt' stmt :=
  h.imp Ne.symm Clear.symm

lemma chosen_updatedRow {stmt : UpdateStmt} {whereClause : Option Expression}
    (h : Disjoint (assigned stmt) (clauseNames whereClause)) (row : Row D) :
    chosen whereClause (updatedRow stmt row) = chosen whereClause row :=
  (looks_chosen whereClause).of_disjoint (touches_updatedRow stmt) (Finset.disjoint_coe.mpr h)

/-- Two updates of a row. -/
lemma updatedRow_comm {stmt stmt' : UpdateStmt}
    (hreads : Disjoint (assigned stmt) (readBy stmt'))
    (hreads' : Disjoint (assigned stmt') (readBy stmt))
    (hwrites : Disjoint (assigned stmt) (assigned stmt')) (row : Row D) :
    updatedRow stmt' (updatedRow stmt row) = updatedRow stmt (updatedRow stmt' row) :=
  column_injective ((touches_updatedRow stmt').comm (touches_updatedRow stmt)
    (Finset.disjoint_coe.mpr hreads) (Finset.disjoint_coe.mpr hreads')
    (Finset.disjoint_coe.mpr hwrites.symm))

/-- **A row** may be treated by either statement first. -/
lemma treated_comm {stmt stmt' : Statement} (h : Clear stmt stmt') (row : Row D) :
    (treated stmt row).bind (treated stmt') = (treated stmt' row).bind (treated stmt) := by
  obtain ⟨⟨hrow, hrow'⟩, hreads, hreads', hwrites⟩ := h
  cases stmt with
  | update stmt =>
    cases stmt' with
    | update stmt' => exact congrArg some (updatedRow_comm hreads hreads' hwrites row)
    | delete stmt' =>
      simp only [treated, Option.bind_some, chosen_updatedRow hreads]
      split_ifs
      · rfl
      · rfl
    | _ => cases hrow'
  | delete stmt =>
    cases stmt' with
    | update stmt' =>
      simp only [treated, Option.bind_some, chosen_updatedRow hreads']
      split_ifs
      · rfl
      · rfl
    | delete stmt' =>
      rcases hfirst : chosen stmt.whereClause row with _ | _ <;>
        rcases hsecond : chosen stmt'.whereClause row with _ | _ <;>
        simp [treated, hfirst, hsecond]
    | _ => cases hrow'
  | _ => cases hrow

/-! ### Relations -/

lemma meaning_of_rowWise {stmt : Statement} (h : RowWise stmt) {name : String}
    (hname : named stmt = some name) (rel : Relations D) :
    meaning rel stmt = rel.alter name fun table => table.rows.filterMap (treated stmt) := by
  cases stmt with
  | update stmt =>
    obtain rfl := Option.some.inj hname
    rw [meaning]
    congr 1
    funext table
    exact (congrFun (List.filterMap_eq_map (f := updatedRow (D := D) stmt)) table.rows).symm
  | delete stmt =>
    obtain rfl := Option.some.inj hname
    rw [meaning]
    congr 1
    funext table
    rw [← List.filterMap_eq_filter]
    congr 1
    funext row
    rcases hchosen : chosen stmt.whereClause row with _ | _
    · simp [treated, hchosen, Option.guard]
    · simp [treated, hchosen, Option.guard]
  | _ => cases h

omit [Doubles D] in
lemma alter_alter (rel : Relations D) (name : String) (f g : List (Row D) → List (Row D)) :
    (rel.alter name fun table => f table.rows).alter name (fun table => g table.rows) =
      rel.alter name fun table => g (f table.rows) := by
  unfold Relations.alter
  rw [Function.update_idem, Function.update_self, Option.map_map]
  rfl

/-- A statement is about the relation under one name. -/
lemma exists_meaning {stmt : Statement} {name : String} (h : named stmt = some name) :
    ∃ f : Option (Table D) → Option (Table D), ∀ rel : Relations D,
      meaning rel stmt = Function.update rel name (f (rel name)) := by
  cases stmt with
  | createTable stmt =>
    obtain rfl := Option.some.inj h
    exact ⟨fun _ => some { schema := .ofColumns stmt.tableName stmt.columns }, fun _ => rfl⟩
  | select stmt => exact ⟨id, fun rel => (Function.update_eq_self name rel).symm⟩
  | insert stmt =>
    obtain rfl := Option.some.inj h
    exact ⟨Option.map fun table => { table with
      rows := table.rows ++ builtRows stmt table.schema stmt.values }, fun _ => rfl⟩
  | update stmt =>
    obtain rfl := Option.some.inj h
    exact ⟨Option.map fun table => { table with rows := table.rows.map (updatedRow stmt) },
      fun _ => rfl⟩
  | delete stmt =>
    obtain rfl := Option.some.inj h
    exact ⟨Option.map fun table => { table with
      rows := table.rows.filter fun row => !chosen stmt.whereClause row }, fun _ => rfl⟩
  | other => cases h

/-- **Meanings commute** where statements are apart. -/
theorem meaning_comm {stmt stmt' : Statement} (h : Apart stmt stmt') (rel : Relations D) :
    meaning (meaning rel stmt) stmt' = meaning (meaning rel stmt') stmt := by
  rcases hname : named stmt with _ | name
  · cases stmt <;> cases hname
    rfl
  rcases hname' : named stmt' with _ | name'
  · cases stmt' <;> cases hname'
    rfl
  by_cases hne : name = name'
  · subst hne
    have hclear := h.resolve_left fun hno => hno (hname.trans hname'.symm)
    simp only [meaning_of_rowWise hclear.rowWise.1 hname,
      meaning_of_rowWise hclear.rowWise.2 hname', alter_alter, List.filterMap_filterMap]
    congr 1
    funext table
    exact List.filterMap_congr fun row _ => treated_comm hclear row
  · obtain ⟨f, hf⟩ := exists_meaning (D := D) hname
    obtain ⟨f', hf'⟩ := exists_meaning (D := D) hname'
    rw [hf, hf', hf', hf, Function.update_of_ne hne, Function.update_of_ne (Ne.symm hne),
      Function.update_comm hne]

/-! ### Runs -/

/-- Every statement of the run succeeds in its turn. -/
def AllSucceed (db : Database D) (stmts : List Statement) : Prop :=
  Along step (fun db stmt => succeeded db stmt = true) db stmts

lemma relations_run {db : Database D} {stmts : List Statement} (h : AllSucceed db stmts) :
    relations (run step db stmts) = run meaning (relations db) stmts := by
  induction stmts generalizing db with
  | nil => rfl
  | cons stmt stmts ih =>
    rw [run_cons, run_cons, ih h.2, ← (execute_means h.1).1]
    rfl

omit [Doubles D] in
lemma relations_injective : Function.Injective (relations (D := D)) := by
  rintro ⟨tables⟩ ⟨tables'⟩ h
  exact congrArg Database.mk (ExtTreeMap.ext_getElem? (congrFun h))

/-- **Statements apart come in any order**: where each succeeds in its turn, both orders leave
the same database. -/
theorem reorder {db : Database D} {stmts stmts' : List Statement} (hperm : stmts'.Perm stmts)
    (hapart : stmts.Pairwise Apart) (h : AllSucceed db stmts) (h' : AllSucceed db stmts') :
    run step db stmts' = run step db stmts := by
  have hcomm : ∀ stmt ∈ stmts, ∀ stmt' ∈ stmts, ∀ rel : Relations D,
      meaning (meaning rel stmt) stmt' = meaning (meaning rel stmt') stmt :=
    fun _ hstmt _ hstmt' => List.Pairwise.forall_of_forall_of_flip (fun _ _ _ => rfl)
      (hapart.imp meaning_comm) (hapart.imp fun h rel => (meaning_comm h rel).symm) hstmt hstmt'
  refine relations_injective ?_
  rw [relations_run h, relations_run h']
  exact (hperm.symm.foldl_eq' (fun stmt hstmt stmt' hstmt' rel =>
    hcomm stmt hstmt stmt' hstmt' rel) (relations db)).symm

/-! A row of three columns. -/

def abc : Table ℚ where
  schema := .ofColumns "t" [{ name := "a", type := .VARCHAR }, { name := "b", type := .VARCHAR },
    { name := "c", type := .VARCHAR }]
  rows := [(((∅ : Row ℚ).insert "a" (.string "x")).insert "b" (.string "y")).insert "c"
    (.string "z")]

def abcOnly : Database ℚ where
  tables := (∅ : ExtTreeMap String (Table ℚ)).insert "t" abc

def isA (value : String) : Expression :=
  .binaryOp (.identifier "a") (.literal value .STRING) .EQUALS

def copyA : UpdateStmt where
  tableName := "t"
  assignments := [("b", .identifier "a")]

def nullC : UpdateStmt where
  tableName := "t"
  assignments := [("c", .literal "" .NULL_KEYWORD)]
  whereClause := some (isA "x")

def dropY : DeleteStmt where
  tableName := "t"
  whereClause := some (isA "y")

def batch : List Statement := [.update copyA, .update nullC, .delete dropY]

lemma pairwise_batch : batch.Pairwise Apart := by
  have hcopy : Apart (.update copyA) (.update nullC) :=
    Or.inr ⟨⟨trivial, trivial⟩, by decide, by decide, by decide⟩
  have hcopy' : Apart (.update copyA) (.delete dropY) :=
    Or.inr ⟨⟨trivial, trivial⟩, by decide, by decide, by decide⟩
  have hnull : Apart (.update nullC) (.delete dropY) :=
    Or.inr ⟨⟨trivial, trivial⟩, by decide, by decide, by decide⟩
  simp [batch, hcopy, hcopy', hnull]

theorem reorder_batch : run step abcOnly batch.reverse = run step abcOnly batch :=
  reorder batch.reverse_perm pairwise_batch
    ⟨by decide, by decide, by decide, trivial⟩ ⟨by decide, by decide, by decide, trivial⟩

/-! ### An update, once more -/

/-- The row passes: nothing throws at it, and what is assigned to it meets the checks. -/
def Passed (stmt : UpdateStmt) (schema : TableSchema) (row : Row D) : Prop :=
  (∃ b, selects stmt.whereClause row = .ok b) ∧
    (isMatch stmt row = true → ColumnsExist stmt schema ∧ Assigns stmt row ∧
      NotNull schema (updatedRow stmt row) ∧ NoUniqueValue schema (updatedRow stmt row))

/-- Other rows do not matter to the check, since an updated row is checked against itself. -/
lemma validateRow_self_iff {schema : TableSchema} {row : Row D} {before after : List (Row D)} :
    validateRow row schema (before ++ row :: after) = .ok () ↔
      NotNull schema row ∧ NoUniqueValue schema row := by
  rw [validateRow_eq_ok]
  refine and_congr_right fun _ => ⟨fun h => ?_, fun h r _ => h.noClash r⟩
  exact noUniqueValue_iff.mpr (h row (List.mem_append_right _ List.mem_cons_self))

lemma updateTurn_eq_none_iff {stmt : UpdateStmt} {schema : TableSchema}
    {s : List (Row D) × ℕ} {row : Row D} {after : List (Row D)} :
    (updateTurn stmt schema s row after).1 = none ↔ Passed stmt schema row := by
  unfold updateTurn Passed
  dsimp only
  rcases hsel : selects stmt.whereClause row with e | _ | _
  · simp
  · have hmatch : isMatch stmt row = false := by rw [isMatch, hsel]
    simp [hmatch]
  · have hmatch : isMatch stmt row = true := by rw [isMatch, hsel]
    dsimp only
    rcases forEach_assignTurn_cases schema stmt.assignments row with
      ⟨hcols, row', hassign, hloop⟩ | ⟨hthrown, hno⟩
    · rw [hloop, updatedRow_of_match hmatch hassign]
      have hvalid : validateRow row' schema (s.1 ++ row' :: after) = .ok () ↔
          NotNull schema row' ∧ NoUniqueValue schema row' := validateRow_self_iff
      dsimp only
      rcases hresult : validateRow row' schema (s.1 ++ row' :: after) with e | _
      · rw [hresult] at hvalid
        simp only [reduceCtorEq, false_iff] at hvalid
        simp only [reduceCtorEq, false_iff]
        exact fun h => hvalid (h.2 hmatch).2.2
      · exact iff_of_true rfl ⟨⟨true, rfl⟩, fun _ => ⟨hcols, ⟨row', hassign⟩, hvalid.mp hresult⟩⟩
    · obtain ⟨e, he⟩ := Option.isSome_iff_exists.mp hthrown
      rw [he]
      refine iff_of_false (by simp) fun h => hno ?_
      obtain ⟨hcols, hassigns, -⟩ := h.2 hmatch
      exact ⟨hcols, hassigns⟩

lemma update_eq_none_iff {stmt : UpdateStmt} {schema : TableSchema} {rows : List (Row D)}
    {s : List (Row D) × ℕ} :
    (forEach (updateTurn stmt schema) s rows).thrown = none ↔
      ∀ row ∈ rows, Passed stmt schema row := by
  induction rows generalizing s with
  | nil => simp [forEach]
  | cons row rows ih =>
    have hrow : (updateTurn stmt schema s row rows).1 = none ↔ Passed stmt schema row :=
      updateTurn_eq_none_iff
    rw [List.forall_mem_cons, ← hrow]
    rcases hturn : updateTurn stmt schema s row rows with ⟨_ | e, s'⟩
    · rw [forEach_cons_of_none hturn, ih]
      simp
    · simp [forEach, hturn]

/-- Assignments that do not read what they assign, once more. -/
lemma assignAll_again {stmt : UpdateStmt} (h : Disjoint (assigned stmt) (assignedFrom stmt))
    {row last : Row D} (hassign : assignAll evaluateExpression stmt.assignments row = .ok last) :
    assignAll evaluateExpression stmt.assignments last = .ok last := by
  have hreads : ∀ a ∈ stmt.assignments, (names a.2 : Set String) ⊆ (assigned stmt : Set String)ᶜ :=
    fun a ha => (Finset.coe_subset.mpr (names_subset_assignedFrom ha)).trans
      (Finset.disjoint_coe.mpr h).subset_compl_left
  have hframe : Set.EqOn (column row) (column last) (assigned stmt : Set String)ᶜ :=
    fun k hk => (frame_assignAll hassign fun hmem =>
      hk (Finset.mem_coe.mpr (List.mem_toFinset.mpr hmem))).symm
  rcases agree_assignAll hreads hframe with ⟨e, he, -⟩ | ⟨last', last'', h₁, h₂, hagree⟩
  · rw [hassign] at he
    cases he
  · rw [hassign] at h₁
    cases h₁
    rw [h₂]
    refine congrArg Except.ok (column_injective (funext fun k => (hagree ?_).symm))
    by_cases hk : k ∈ stmt.assignments.map Prod.fst
    · exact Or.inr hk
    · exact Or.inl fun hmem => hk (List.mem_toFinset.mp (Finset.mem_coe.mp hmem))

section Again

variable {stmt : UpdateStmt} (h : Disjoint (assigned stmt) (readBy stmt)) (row : Row D)

include h

lemma selects_updatedRow :
    selects stmt.whereClause (updatedRow stmt row) = selects stmt.whereClause row :=
  (looks_selects _).of_disjoint (touches_updatedRow stmt)
    (Finset.disjoint_coe.mpr (h.mono_right Finset.subset_union_left))

lemma isMatch_updatedRow : isMatch stmt (updatedRow stmt row) = isMatch stmt row := by
  rw [isMatch, isMatch, selects_updatedRow h]

lemma assigns_updatedRow (hmatch : isMatch stmt row = true) (hassigns : Assigns stmt row) :
    Assigns stmt (updatedRow stmt row) ∧
      updatedRow stmt (updatedRow stmt row) = updatedRow stmt row := by
  obtain ⟨last, hassign⟩ := hassigns
  have hagain := assignAll_again (h.mono_right Finset.subset_union_right) hassign
  have hmatch' : isMatch stmt (updatedRow stmt row) = true := by rwa [isMatch_updatedRow h]
  rw [updatedRow_of_match hmatch hassign] at hmatch' ⊢
  exact ⟨⟨last, hagain⟩, updatedRow_of_match hmatch' hagain⟩

/-- A row that has passed passes again, and stays as it is. -/
lemma Passed.again {schema : TableSchema} (hpassed : Passed stmt schema row) :
    Passed stmt schema (updatedRow stmt row) ∧
      updatedRow stmt (updatedRow stmt row) = updatedRow stmt row := by
  obtain ⟨⟨b, hsel⟩, hmatched⟩ := hpassed
  have hsel' : ∃ b, selects stmt.whereClause (updatedRow stmt row) = .ok b :=
    ⟨b, (selects_updatedRow h row).trans hsel⟩
  rcases hmatch : isMatch stmt row with _ | _
  · rw [updatedRow_of_not_match hmatch] at hsel' ⊢
    exact ⟨⟨hsel', hmatched⟩, updatedRow_of_not_match hmatch⟩
  · obtain ⟨hcols, hassigns, hnotNull, hunique⟩ := hmatched hmatch
    obtain ⟨hassigns', hsame⟩ := assigns_updatedRow h row hmatch hassigns
    refine ⟨⟨hsel', fun _ => ⟨hcols, hassigns', ?_, ?_⟩⟩, hsame⟩
    · rwa [hsame]
    · rwa [hsame]

end Again

/-- **An update that does not read what it assigns is idempotent**: where it succeeds, it
succeeds again with the same answer, and nothing changes any more. -/
theorem update_twice {db : Database D} {stmt : UpdateStmt}
    (h : Disjoint (assigned stmt) (readBy stmt)) (hsuccess : succeeded db (.update stmt) = true) :
    execute (step db (.update stmt)) (.update stmt) =
      ((execute db (.update stmt)).1, step db (.update stmt)) := by
  have hsucceeds : Succeeds db stmt := succeeded_iff.mp hsuccess
  rcases db.onTable_cases stmt.tableName with hnone | ⟨table, hname, htable⟩
  · exact absurd hsucceeds (not_succeeds_of_none hnone)
  have hpassed := update_eq_none_iff.mp ((succeeds_iff hname htable).mp hsucceeds)
  have hexecute := hsucceeds.execute_eq hname htable
  set rows := table.rows.map (updatedRow stmt) with hrows
  have htable' : (db.setRows stmt.tableName rows).tables[stmt.tableName]? =
      some { table with rows := rows } :=
    setRows_self htable _
  have hsucceeds' : Succeeds (db.setRows stmt.tableName rows) stmt := by
    rw [succeeds_iff hname htable', update_eq_none_iff]
    intro row hrow
    obtain ⟨row', hrow', rfl⟩ := List.mem_map.mp hrow
    exact ((hpassed row' hrow').again h row').1
  have hsame : rows.map (updatedRow stmt) = rows := by
    rw [hrows, List.map_map]
    exact List.map_congr_left fun row hrow => ((hpassed row hrow).again h row).2
  have hcount : rows.countP (isMatch stmt) = table.rows.countP (isMatch stmt) := by
    rw [hrows, List.countP_map]
    exact congrArg (fun p => table.rows.countP p) (funext fun row => isMatch_updatedRow h row)
  have hstep : step db (.update stmt) = db.setRows stmt.tableName rows := by
    rw [SqlConstraints.step, hexecute]
  rw [hstep, hexecute, hsucceeds'.execute_eq hname htable', hcount]
  dsimp only
  rw [hsame, (Database.setRows_eq_iff htable' rows).mpr rfl]

theorem update_twice_abc :
    execute (step abcOnly (.update nullC)) (.update nullC) =
      ((execute abcOnly (.update nullC)).1, step abcOnly (.update nullC)) :=
  update_twice (by decide) (by decide)

end Dbx4.SqlColumns
