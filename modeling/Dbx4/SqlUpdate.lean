import Mathlib.Data.List.Permutation
import Dbx4.Assign
import Dbx4.SqlConstraints

/-!
What an `UPDATE` does to the rows of its table.

An `UPDATE` that does not throw applies its assignments to every matching row, one after
another. Its check of a row looks for the values of the row among all rows, the row itself
among them.
-/

namespace Dbx4.SqlUpdate

open Std Dbx4.Assign Dbx4.ForEach Dbx4.Runs Dbx4.SqlAst Dbx4.SqlValue Dbx4.SqlEval Dbx4.SqlExec
open Dbx4.SqlAtomic Dbx4.SqlConstraints

variable {D : Type} [Doubles D]

/-! ### What an update is meant to do -/

/-- The row matches the `WHERE` clause. -/
def isMatch (stmt : UpdateStmt) (row : Row D) : Bool :=
  match selects stmt.whereClause row with
  | .ok b => b
  | .error _ => false

/-- The row with the assignments applied, where it matches. -/
def updatedRow (stmt : UpdateStmt) (row : Row D) : Row D :=
  match isMatch stmt row, assignAll evaluateExpression stmt.assignments row with
  | true, .ok row' => row'
  | _, _ => row

def ColumnsExist (stmt : UpdateStmt) (schema : TableSchema) : Prop :=
  ∀ a ∈ stmt.assignments, a.1 ∈ schema.columnIndex

def Assigns (stmt : UpdateStmt) (row : Row D) : Prop :=
  ∃ row', assignAll evaluateExpression stmt.assignments row = .ok row'

/-- The `WHERE` clause does not throw on the row, and the assignments do not where it matches. -/
def Evaluates (stmt : UpdateStmt) (row : Row D) : Prop :=
  (∃ b, selects stmt.whereClause row = .ok b) ∧ (isMatch stmt row = true → Assigns stmt row)

/-- No value but nulls in a `UNIQUE` column. -/
def NoUniqueValue (schema : TableSchema) (row : Row D) : Prop :=
  ∀ colName ∈ schema.uniqueColumns, ∀ v, row[colName]? = some v → v.isNull = true

/-! ### One row -/

/-- Only a row without such a value does not clash with itself, and then with no other. -/
lemma noUniqueValue_iff {schema : TableSchema} {row : Row D} :
    NoUniqueValue schema row ↔ NoClash schema row row := by
  refine forall_congr' fun colName => forall_congr' fun _ => ?_
  unfold clash
  rcases row[colName]? with _ | v
  · simp
  · simp

lemma NoUniqueValue.noClash {schema : TableSchema} {row : Row D} (h : NoUniqueValue schema row)
    (row' : Row D) : NoClash schema row row' := by
  intro colName hcol
  have hnull := h colName hcol
  unfold clash
  rcases hvalue : row[colName]? with _ | v
  · rfl
  · rcases row'[colName]? with _ | w
    · rfl
    · simp [hnull v hvalue]

lemma validateColumnExists_eq_ok {colName : String} {schema : TableSchema} :
    validateColumnExists colName schema = .ok () ↔ colName ∈ schema.columnIndex := by
  unfold validateColumnExists
  split_ifs with h
  · exact iff_of_true rfl h
  · exact iff_of_false (by simp) h

/-- The loop over the assignments: it throws, or it is the assignments one after another. -/
lemma forEach_assignTurn_cases (schema : TableSchema) (as : List (String × Expression))
    (row : Row D) :
    ((∀ a ∈ as, a.1 ∈ schema.columnIndex) ∧ ∃ row',
        assignAll evaluateExpression as row = .ok row' ∧
          forEach (assignTurn schema) row as = ⟨none, row', []⟩) ∨
      ((forEach (assignTurn schema) row as).thrown.isSome ∧
        ¬ ((∀ a ∈ as, a.1 ∈ schema.columnIndex) ∧
          ∃ row', assignAll evaluateExpression as row = .ok row')) := by
  induction as generalizing row with
  | nil => exact Or.inl ⟨by simp, row, rfl, rfl⟩
  | cons a as ih =>
    rw [forEach]
    dsimp only [assignTurn]
    rcases hcol : validateColumnExists a.1 schema with e | _
    · refine Or.inr ⟨rfl, fun h => ?_⟩
      rw [validateColumnExists_eq_ok.mpr (h.1 a List.mem_cons_self)] at hcol
      cases hcol
    have hmem := validateColumnExists_eq_ok.mp hcol
    rcases hval : evaluateExpression a.2 row with e | v
    · refine Or.inr ⟨rfl, fun h => ?_⟩
      obtain ⟨-, row', h⟩ := h
      obtain ⟨v, hv, -⟩ := assignAll_cons_eq_ok.mp h
      rw [hval] at hv
      cases hv
    · dsimp only
      rcases ih (row.insert a.1 v) with ⟨hcols, row', hassign, hloop⟩ | ⟨hthrown, hno⟩
      · refine Or.inl ⟨?_, row', assignAll_cons_eq_ok.mpr ⟨v, hval, hassign⟩, hloop⟩
        exact List.forall_mem_cons.mpr ⟨hmem, hcols⟩
      · refine Or.inr ⟨hthrown, fun h => ?_⟩
        obtain ⟨hcols, row', h⟩ := h
        refine hno ⟨?_, row', ?_⟩
        · exact (List.forall_mem_cons.mp hcols).2
        · obtain ⟨w, hw, hrest⟩ := assignAll_cons_eq_ok.mp h
          rw [hval, Except.ok.injEq] at hw
          rwa [hw]

lemma updatedRow_of_not_match {stmt : UpdateStmt} {row : Row D} (h : isMatch stmt row = false) :
    updatedRow stmt row = row := by
  unfold updatedRow
  rw [h]

lemma updatedRow_of_match {stmt : UpdateStmt} {row row' : Row D} (h : isMatch stmt row = true)
    (hassign : assignAll evaluateExpression stmt.assignments row = .ok row') :
    updatedRow stmt row = row' := by
  unfold updatedRow
  rw [h, hassign]

/-- A turn that does not throw. -/
lemma updateTurn_of_none {stmt : UpdateStmt} {schema : TableSchema} {s : List (Row D) × ℕ}
    {row : Row D} {after : List (Row D)} (h : (updateTurn stmt schema s row after).1 = none) :
    (isMatch stmt row = true → ColumnsExist stmt schema ∧ Assigns stmt row ∧
      NoUniqueValue schema (updatedRow stmt row)) ∧
    updateTurn stmt schema s row after =
      (none, (s.1 ++ [updatedRow stmt row], s.2 + if isMatch stmt row then 1 else 0)) := by
  unfold updateTurn at h ⊢
  dsimp only at h ⊢
  rcases hsel : selects stmt.whereClause row with e | _ | _ <;> rw [hsel] at h
  · cases h
  · have hmatch : isMatch stmt row = false := by rw [isMatch, hsel]
    rw [updatedRow_of_not_match hmatch, hmatch]
    exact ⟨fun hfalse => (by cases hfalse), rfl⟩
  · have hmatch : isMatch stmt row = true := by rw [isMatch, hsel]
    dsimp only at h ⊢
    rcases forEach_assignTurn_cases schema stmt.assignments row with
      ⟨hcols, row', hassign, hloop⟩ | ⟨hthrown, -⟩
    · rw [hloop] at h ⊢
      dsimp only at h ⊢
      rcases hvalid : validateRow row' schema (s.1 ++ row' :: after) with e | _ <;>
        rw [hvalid] at h
      · cases h
      · obtain ⟨-, hclash⟩ := validateRow_eq_ok.mp hvalid
        rw [updatedRow_of_match hmatch hassign, hmatch]
        refine ⟨fun _ => ⟨hcols, ⟨row', hassign⟩, noUniqueValue_iff.mpr (hclash row' ?_)⟩, rfl⟩
        exact List.mem_append_right _ List.mem_cons_self
    · obtain ⟨e, he⟩ := Option.isSome_iff_exists.mp hthrown
      rw [he] at h
      cases h

/-- A turn at a row that the check lets pass. -/
lemma updateTurn_of_assigns {stmt : UpdateStmt} {schema : TableSchema} {row : Row D}
    (heval : Evaluates stmt row) (hnotNull : NotNull schema (updatedRow stmt row))
    (hpass : isMatch stmt row = true → ColumnsExist stmt schema ∧
      NoUniqueValue schema (updatedRow stmt row))
    (s : List (Row D) × ℕ) (after : List (Row D)) :
    (updateTurn stmt schema s row after).1 = none := by
  unfold updateTurn
  dsimp only
  obtain ⟨⟨b, hsel⟩, hassigns⟩ := heval
  rw [hsel]
  rcases b with _ | _
  · rfl
  · have hmatch : isMatch stmt row = true := by rw [isMatch, hsel]
    obtain ⟨hcols, hunique⟩ := hpass hmatch
    rcases forEach_assignTurn_cases schema stmt.assignments row with
      ⟨-, row', hassign, hloop⟩ | ⟨-, hno⟩
    · rw [updatedRow_of_match hmatch hassign] at hnotNull hunique
      have hvalid : validateRow row' schema (s.1 ++ row' :: after) = .ok () :=
        validateRow_eq_ok.mpr ⟨hnotNull, fun r _ => hunique.noClash r⟩
      rw [hloop]
      dsimp only
      rw [hvalid]
    · exact absurd ⟨hcols, hassigns hmatch⟩ hno

/-! ### The loop -/

/-- A loop that does not throw. -/
lemma update_of_none {stmt : UpdateStmt} {schema : TableSchema} {rows : List (Row D)}
    {s : List (Row D) × ℕ} (h : (forEach (updateTurn stmt schema) s rows).thrown = none) :
    (∀ row ∈ rows, isMatch stmt row = true → ColumnsExist stmt schema ∧ Assigns stmt row ∧
      NoUniqueValue schema (updatedRow stmt row)) ∧
    forEach (updateTurn stmt schema) s rows = ⟨none,
      (s.1 ++ rows.map (updatedRow stmt), s.2 + rows.countP (isMatch stmt)), []⟩ := by
  induction rows generalizing s with
  | nil => simp [forEach]
  | cons row rows ih =>
    have hturn : (updateTurn stmt schema s row rows).1 = none := by
      rw [forEach] at h
      split at h
      case h_1 => cases h
      case h_2 hbody => rw [hbody]
    obtain ⟨hrow, hbody⟩ := updateTurn_of_none hturn
    rw [forEach_cons_of_none hbody] at h ⊢
    obtain ⟨hrows, hloop⟩ := ih h
    refine ⟨List.forall_mem_cons.mpr ⟨hrow, hrows⟩, ?_⟩
    rw [hloop, List.map_cons, List.countP_cons]
    simp only [List.append_assoc, List.singleton_append, Nat.add_assoc, Nat.add_comm]

/-- A loop over rows that the check lets pass. -/
lemma update_of_assigns {stmt : UpdateStmt} {schema : TableSchema} {rows : List (Row D)}
    (hrows : ∀ row ∈ rows, Evaluates stmt row)
    (hnotNull : ∀ row ∈ rows, NotNull schema (updatedRow stmt row))
    (hpass : ∀ row ∈ rows, isMatch stmt row = true → ColumnsExist stmt schema ∧
      NoUniqueValue schema (updatedRow stmt row))
    (s : List (Row D) × ℕ) : (forEach (updateTurn stmt schema) s rows).thrown = none := by
  induction rows generalizing s with
  | nil => rfl
  | cons row rows ih =>
    obtain ⟨heval, hrows⟩ := List.forall_mem_cons.mp hrows
    obtain ⟨hrow, hnotNull⟩ := List.forall_mem_cons.mp hnotNull
    obtain ⟨hfirst, hpass⟩ := List.forall_mem_cons.mp hpass
    have hturn := updateTurn_of_assigns heval hrow hfirst s rows
    rw [forEach_cons_of_none (updateTurn_of_none hturn).2]
    exact ih hrows hnotNull hpass _

/-! ### The statement -/

def Succeeds (db : Database D) (stmt : UpdateStmt) : Prop :=
  ∃ result, (execute db (.update stmt)).1 = some result ∧ result.success = true

/-- The update succeeds with the updated rows, and reports how many rows match. -/
def Updates (db : Database D) (stmt : UpdateStmt) (table : Table D) : Prop :=
  ∃ result : QueryResult D,
    execute db (.update stmt) =
      (some result, db.setRows stmt.tableName (table.rows.map (updatedRow stmt))) ∧
    result.success = true ∧ result.rowsAffected.toInt = table.rows.countP (isMatch stmt)

/-- An update succeeds exactly when its loop does not throw. -/
lemma succeeds_iff {db : Database D} {stmt : UpdateStmt} {table : Table D}
    (hname : stmt.tableName ≠ "") (htable : db.tables[stmt.tableName]? = some table) :
    Succeeds db stmt ↔
      (forEach (updateTurn stmt table.schema) ([], 0) table.rows).thrown = none := by
  unfold Succeeds
  rw [execute_update hname htable]
  rcases (forEach (updateTurn stmt table.schema) ([], 0) table.rows).thrown with _ | e
  · simp [caught, outcome]
  · simp [caught, outcome]

lemma not_succeeds_of_none {db : Database D} {stmt : UpdateStmt}
    (h : stmt.tableName = "" ∨ db.tables[stmt.tableName]? = none) : ¬ Succeeds db stmt := by
  rintro ⟨result, hresult, hsuccess⟩
  simp only [execute, executeUpdate, Database.getTable] at hresult
  split_ifs at hresult with hname
  · cases hresult
    cases hsuccess
  · rw [h.resolve_left hname] at hresult
    cases hresult
    cases hsuccess

lemma Succeeds.rows {db : Database D} {stmt : UpdateStmt} {table : Table D}
    (h : Succeeds db stmt) (hname : stmt.tableName ≠ "")
    (htable : db.tables[stmt.tableName]? = some table) :
    ∀ row ∈ table.rows, isMatch stmt row = true → ColumnsExist stmt table.schema ∧
      Assigns stmt row ∧ NoUniqueValue table.schema (updatedRow stmt row) :=
  (update_of_none ((succeeds_iff hname htable).mp h)).1

/-- What an update that succeeds does. -/
lemma Succeeds.execute_eq {db : Database D} {stmt : UpdateStmt} {table : Table D}
    (h : Succeeds db stmt) (hname : stmt.tableName ≠ "")
    (htable : db.tables[stmt.tableName]? = some table) :
    execute db (.update stmt) =
      (some { success := true, rowsAffected := Int32.ofNat (table.rows.countP (isMatch stmt)) },
        db.setRows stmt.tableName (table.rows.map (updatedRow stmt))) := by
  obtain ⟨-, hloop⟩ := update_of_none ((succeeds_iff hname htable).mp h)
  rw [execute_update hname htable, hloop]
  simp [caught, outcome]

lemma toInt_ofNat_eq_iff {n : ℕ} : (Int32.ofNat n).toInt = n ↔ n < 2 ^ 31 := by
  refine ⟨fun h => ?_, Int32.toInt_ofNat_of_lt⟩
  have hlt := Int32.toInt_lt (Int32.ofNat n)
  omega

/-- **When an update does what it is meant to**: where the clause and the assignments do not
throw and the updated rows meet the constraints, exactly when the assigned columns exist, no
updated row has a value in a `UNIQUE` column, and the number of matching rows is an `int`. -/
theorem updates_iff {db : Database D} {stmt : UpdateStmt} {table : Table D}
    (hname : stmt.tableName ≠ "") (htable : db.tables[stmt.tableName]? = some table)
    (heval : ∀ row ∈ table.rows, Evaluates stmt row)
    (hafter : RowsOk table.schema (table.rows.map (updatedRow stmt))) :
    Updates db stmt table ↔
      (∀ row ∈ table.rows, isMatch stmt row = true →
        ColumnsExist stmt table.schema ∧ NoUniqueValue table.schema (updatedRow stmt row)) ∧
      table.rows.countP (isMatch stmt) < 2 ^ 31 := by
  constructor
  · rintro ⟨result, hexecute, hsuccess, haffected⟩
    have hsucceeds : Succeeds db stmt := ⟨result, congrArg Prod.fst hexecute, hsuccess⟩
    refine ⟨fun row hrow hmatch => ?_, ?_⟩
    · obtain ⟨hcols, -, hunique⟩ := hsucceeds.rows hname htable row hrow hmatch
      exact ⟨hcols, hunique⟩
    · rw [hsucceeds.execute_eq hname htable] at hexecute
      rw [← Option.some.inj (congrArg Prod.fst hexecute)] at haffected
      exact toInt_ofNat_eq_iff.mp haffected
  · rintro ⟨hpass, hcount⟩
    have hnotNull (row : Row D) (hrow : row ∈ table.rows) :
        NotNull table.schema (updatedRow stmt row) :=
      hafter.notNull _ (List.mem_map_of_mem hrow)
    have hsucceeds : Succeeds db stmt :=
      (succeeds_iff hname htable).mpr (update_of_assigns heval hnotNull hpass ([], 0))
    exact ⟨_, hsucceeds.execute_eq hname htable, rfl, toInt_ofNat_eq_iff.mpr hcount⟩

/-- A table with a `UNIQUE` column `a`, a column `b`, and one row. -/
def oneRow (a : Value ℚ) : Table ℚ where
  schema := .ofColumns "t"
    [{ name := "a", type := .TEXT, unique := true }, { name := "b", type := .TEXT }]
  rows := [((∅ : Row ℚ).insert "a" a).insert "b" .null]

def oneTable (a : Value ℚ) : Database ℚ where
  tables := (∅ : ExtTreeMap String (Table ℚ)).insert "t" (oneRow a)

def setB : UpdateStmt where
  tableName := "t"
  assignments := [("b", .literal "y" .STRING)]

lemma evaluates_oneRow (a : Value ℚ) : ∀ row ∈ (oneRow a).rows, Evaluates setB row :=
  fun _ _ => ⟨⟨true, rfl⟩, fun _ => ⟨_, rfl⟩⟩

lemma rowsOk_singleton {schema : TableSchema} {row : Row D} (h : NotNull schema row) :
    RowsOk schema [row] := by
  refine ⟨fun r hr => ?_, List.pairwise_singleton _ _⟩
  rwa [List.mem_singleton.mp hr]

lemma notNull_oneRow (a : Value ℚ) (row : Row ℚ) : NotNull (oneRow a).schema row :=
  fun _ hcol => absurd hcol ExtTreeSet.not_mem_empty

/-- An update beside a null in the `UNIQUE` column. -/
theorem updates_oneRow : Updates (oneTable .null) setB (oneRow .null) := by
  refine (updates_iff (by decide) (by simp [setB, oneTable]) (evaluates_oneRow .null)
    (rowsOk_singleton (notNull_oneRow _ _))).mpr ⟨fun row hrow _ => ⟨?_, ?_⟩, by decide⟩
  · intro a ha
    rw [List.mem_singleton.mp ha]
    decide
  · rw [List.mem_singleton.mp hrow]
    intro colName hcol v hv
    have hcols : (oneRow .null).schema.uniqueColumns.toList = ["a"] := by decide
    rw [← ExtTreeSet.mem_toList, hcols, List.mem_singleton] at hcol
    have hnull : (updatedRow setB (((∅ : Row ℚ).insert "a" .null).insert "b" .null))["a"]? =
        some .null := by decide
    rw [hcol, hnull] at hv
    cases hv
    rfl

/-- An update beside a value in it: the check finds the row itself. -/
theorem not_updates_oneRow :
    RowsOk (oneRow (.string "x")).schema (oneRow (.string "x")).rows ∧
    (∀ row ∈ (oneRow (.string "x")).rows, Evaluates setB row) ∧
    RowsOk (oneRow (.string "x")).schema ((oneRow (.string "x")).rows.map (updatedRow setB)) ∧
    ¬ Updates (oneTable (.string "x")) setB (oneRow (.string "x")) := by
  refine ⟨rowsOk_singleton (notNull_oneRow _ _), evaluates_oneRow _,
    rowsOk_singleton (notNull_oneRow _ _), ?_⟩
  rintro ⟨result, hexecute, hsuccess, -⟩
  have hfails : ((execute (oneTable (.string "x")) (.update setB)).1.map QueryResult.success) =
      some false := by decide
  rw [hexecute, Option.map_some, hsuccess] at hfails
  cases hfails

/-! ### The order of the assignments -/

/-- Two updates that differ in their assignments leave a row the same exactly when it does not
match, or the assignments lead to the same row. -/
lemma updatedRow_eq_iff {stmt : UpdateStmt} {as : List (String × Expression)} {row : Row D}
    (h : isMatch stmt row = true → Assigns stmt row)
    (h' : isMatch stmt row = true → Assigns { stmt with assignments := as } row) :
    updatedRow { stmt with assignments := as } row = updatedRow stmt row ↔
      (isMatch stmt row = true →
        assignAll evaluateExpression as row =
          assignAll evaluateExpression stmt.assignments row) := by
  rcases hmatch : isMatch stmt row with _ | _
  · rw [updatedRow_of_not_match hmatch, updatedRow_of_not_match (by exact hmatch)]
    simp
  · obtain ⟨row', hassign⟩ := h hmatch
    obtain ⟨row'', hassign'⟩ := h' hmatch
    rw [updatedRow_of_match hmatch hassign, updatedRow_of_match (by exact hmatch) hassign',
      hassign]
    dsimp only at hassign'
    rw [hassign', Except.ok.injEq]
    exact ⟨fun he _ => he, fun he => he rfl⟩

/-- Two updates that succeed and differ in their assignments have the same effect exactly when
the assignments lead to the same row, from every row that matches. -/
lemma execute_eq_iff {db : Database D} {stmt : UpdateStmt} {table : Table D}
    {as : List (String × Expression)} (hname : stmt.tableName ≠ "")
    (htable : db.tables[stmt.tableName]? = some table) (h : Succeeds db stmt)
    (h' : Succeeds db { stmt with assignments := as }) :
    execute db (.update { stmt with assignments := as }) = execute db (.update stmt) ↔
      ∀ row ∈ table.rows, isMatch stmt row = true →
        assignAll evaluateExpression as row =
          assignAll evaluateExpression stmt.assignments row := by
  rw [h.execute_eq hname htable, h'.execute_eq hname htable, Prod.mk.injEq]
  refine (and_iff_right rfl).trans ((Database.setRows_inj htable).trans ?_)
  rw [List.map_inj_left]
  refine forall_congr' fun row => forall_congr' fun hrow => ?_
  exact updatedRow_eq_iff (fun hmatch => (h.rows hname htable row hrow hmatch).2.1)
    fun hmatch => (h'.rows hname htable row hrow hmatch).2.1

/-- **When the order of the assignments does not matter**, where the update succeeds in every
order: exactly when for no matching row an assignment is changed by others before it. -/
theorem execute_perm_iff {db : Database D} {stmt : UpdateStmt}
    (hkeys : (stmt.assignments.map Prod.fst).Nodup)
    (hall : ∀ as, as.Perm stmt.assignments → Succeeds db { stmt with assignments := as }) :
    (∀ as, as.Perm stmt.assignments →
        execute db (.update { stmt with assignments := as }) = execute db (.update stmt)) ↔
      db.OnTable stmt.tableName fun table => ∀ row ∈ table.rows, isMatch stmt row = true →
        OrderFree evaluateExpression stmt.assignments row := by
  have hself : Succeeds db stmt := hall _ (List.Perm.refl _)
  rcases db.onTable_cases stmt.tableName with hnone | ⟨table, hname, htable⟩
  · exact absurd hself (not_succeeds_of_none hnone)
  rw [Database.onTable_iff hname htable]
  have hiff (as : List (String × Expression)) (hp : as.Perm stmt.assignments) :=
    execute_eq_iff hname htable hself (hall as hp)
  have hassigns (row : Row D) (hrow : row ∈ table.rows) (hmatch : isMatch stmt row = true)
      (as : List (String × Expression)) (hp : as.Perm stmt.assignments) :
      ∃ row', assignAll evaluateExpression as row = .ok row' :=
    ((hall as hp).rows hname htable row hrow hmatch).2.1
  constructor
  · intro hsame row hrow hmatch
    refine (orderFree_iff hkeys (hassigns row hrow hmatch)).mp fun as hp => ?_
    exact (hiff as hp).mp (hsame as hp) row hrow hmatch
  · intro hfree as hp
    refine (hiff as hp).mpr fun row hrow hmatch => ?_
    exact (orderFree_iff hkeys (hassigns row hrow hmatch)).mpr (hfree row hrow hmatch) as hp

/-- A table with the columns `a` and `b`, and the row `x`, `y`. -/
def pairTable : Database ℚ where
  tables := (∅ : ExtTreeMap String (Table ℚ)).insert "t" {
    schema := .ofColumns "t" [{ name := "a", type := .TEXT }, { name := "b", type := .TEXT }]
    rows := [((∅ : Row ℚ).insert "a" (.string "x")).insert "b" (.string "y")] }

def setPair (a b : Expression) : UpdateStmt where
  tableName := "t"
  assignments := [("a", a), ("b", b)]

def setLiterals : UpdateStmt := setPair (.literal "p" .STRING) (.literal "q" .STRING)

def swap : UpdateStmt := setPair (.identifier "b") (.identifier "a")

lemma succeeds_setPair {a b : Expression}
    (h : ((execute pairTable (.update (setPair a b))).1.map QueryResult.success) = some true)
    (h' : ((execute pairTable (.update { setPair a b with
      assignments := [("b", b), ("a", a)] })).1.map QueryResult.success) = some true) :
    ∀ as, as.Perm (setPair a b).assignments →
      Succeeds pairTable { setPair a b with assignments := as } := by
  intro as hp
  rcases List.perm_pair.mp hp with rfl | rfl
  · exact Option.map_eq_some_iff.mp h
  · exact Option.map_eq_some_iff.mp h'

/-- Two literals, in one order and the other. -/
theorem execute_setLiterals_swap :
    execute pairTable (.update { setLiterals with
        assignments := [("b", .literal "q" .STRING), ("a", .literal "p" .STRING)] }) =
      execute pairTable (.update setLiterals) := by
  refine (execute_perm_iff (by decide) (succeeds_setPair (by decide) (by decide))).mpr ?_ _
    (List.Perm.swap _ _ _)
  intro _ table _ row _ _ before a after hp
  rcases List.mem_pair.mp (hp.mem_iff.mp (List.mem_append_right _ List.mem_cons_self)) with
    rfl | rfl
  · rfl
  · rfl

/-- A swap: the second assignment reads what the first has stored. -/
theorem not_execute_swap_perm :
    (swap.assignments.map Prod.fst).Nodup ∧
    (∀ as, as.Perm swap.assignments → Succeeds pairTable { swap with assignments := as }) ∧
    ¬ ∀ as, as.Perm swap.assignments →
      execute pairTable (.update { swap with assignments := as }) =
        execute pairTable (.update swap) := by
  refine ⟨by decide, succeeds_setPair (by decide) (by decide), fun h => ?_⟩
  have hsame := h _ (List.Perm.swap _ _ _)
  have hvalue := congrArg (fun e => e.2.tables["t"]?.map fun table =>
    table.rows.map fun row => row["a"]?) hsame
  revert hvalue
  decide

end Dbx4.SqlUpdate
