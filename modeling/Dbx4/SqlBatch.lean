import Dbx4.SqlMeaning
import Dbx4.SqlSelect

/-!
Statements in parts.

An `INSERT` of many rows is one `INSERT` behind another, also where one of them fails, and the
pages of a `SELECT` make up its whole answer.
-/

namespace Dbx4.SqlBatch

open Std Dbx4.ForEach Dbx4.Maps Dbx4.Runs Dbx4.SqlAst Dbx4.SqlValue Dbx4.SqlEval Dbx4.SqlExec
open Dbx4.SqlConstraints Dbx4.SqlMeaning Dbx4.SqlPage Dbx4.SqlSelect

variable {D : Type} [Doubles D] {db : Database D}

/-! ### INSERT -/

/-- The statement, on other values. -/
def part (stmt : InsertStmt) (values : List (List Expression)) : Statement :=
  .insert { stmt with values := values }

/-- The count of a result, with rows inserted before. -/
def plus (n : ℕ) (result : QueryResult D) : QueryResult D :=
  if result.success then
    { result with rowsAffected := Int32.ofNat n + result.rowsAffected }
  else result

/-- The count goes along with a loop and decides nothing. -/
lemma insert_count (stmt : InsertStmt) (schema : TableSchema) (values : List (List Expression))
    (rows : List (Row D)) (n k : ℕ) :
    let loop := forEach (insertTurn stmt schema) (rows, k) values
    forEach (insertTurn stmt schema) (rows, n + k) values =
      ⟨loop.thrown, (loop.state.1, n + loop.state.2), loop.unvisited⟩ := by
  induction values generalizing rows k with
  | nil => rfl
  | cons valueRow values ih =>
    dsimp only
    rcases haccept : acceptRow stmt schema rows valueRow with e | newRow
    · have hturn (k : ℕ) : insertTurn stmt schema (rows, k) valueRow values =
          (some e, (rows, k)) := by
        rw [insertTurn, haccept]
      rw [forEach, forEach, hturn, hturn]
    · have hturn (k : ℕ) : insertTurn stmt schema (rows, k) valueRow values =
          (none, (rows ++ [newRow], k + 1)) := by
        rw [insertTurn, haccept]
      rw [forEach_cons_of_none (hturn _), forEach_cons_of_none (hturn _)]
      exact ih (rows ++ [newRow]) (k + 1)

omit [Doubles D] in
lemma setRows_setRows (db : Database D) (name : String) (rows rows' : List (Row D)) :
    (db.setRows name rows).setRows name rows' = db.setRows name rows' := by
  have htables : ((db.setRows name rows).setRows name rows').tables =
      (db.setRows name rows').tables := by
    ext name' : 1
    rw [Database.getElem?_setRows, Database.getElem?_setRows, Database.getElem?_setRows]
    split_ifs
    · rw [Option.map_map]
      rfl
    · rfl
  exact congrArg Database.mk htables

lemma execute_part {stmt : InsertStmt} {table : Table D} (hname : stmt.tableName ≠ "")
    (htable : db.tables[stmt.tableName]? = some table) (values : List (List Expression)) :
    let left := forEach (insertTurn stmt table.schema) (table.rows, 0) values
    execute db (part stmt values) =
      (some (caught (outcome left.thrown
        { success := true, rowsAffected := Int32.ofNat left.state.2 })),
      db.setRows stmt.tableName left.state.1) :=
  execute_insert hname htable

/-- Without its table, an `INSERT` fails whatever its values are. -/
lemma execute_part_of_none {stmt : InsertStmt}
    (h : stmt.tableName = "" ∨ db.tables[stmt.tableName]? = none)
    (values values' : List (List Expression)) :
    execute db (part stmt values) = execute db (part stmt values') := by
  simp only [part, execute, executeInsert, Database.getTable]
  split_ifs with hname
  · rfl
  · rw [h.resolve_left hname]

lemma succeeded_part_iff {stmt : InsertStmt} {table : Table D} (hname : stmt.tableName ≠ "")
    (htable : db.tables[stmt.tableName]? = some table) (values : List (List Expression)) :
    succeeded db (part stmt values) = true ↔
      (forEach (insertTurn stmt table.schema) (table.rows, 0) values).thrown = none := by
  rw [succeeded, execute_part hname htable]
  rcases (forEach (insertTurn stmt table.schema) (table.rows, 0) values).thrown with _ | e
  · simp [caught, outcome]
  · simp [caught, outcome]

/-- **An `INSERT` of two lists of rows** is two of them, one behind the other, as long as the
first does not fail; where it does, the second list does not matter. -/
theorem insert_append (db : Database D) (stmt : InsertStmt) (xs ys : List (List Expression)) :
    execute db (part stmt (xs ++ ys)) =
      if succeeded db (part stmt xs) then
        ((execute (step db (part stmt xs)) (part stmt ys)).1.map (plus xs.length),
          step (step db (part stmt xs)) (part stmt ys))
      else execute db (part stmt xs) := by
  have hbody : ∀ (schema : TableSchema) (s : List (Row D) × ℕ) valueRow values values',
      insertTurn stmt schema s valueRow values = insertTurn stmt schema s valueRow values' :=
    fun _ _ _ _ _ => rfl
  rcases db.onTable_cases stmt.tableName with hnone | ⟨table, hname, htable⟩
  · have hfails : ¬ succeeded db (part stmt xs) = true := not_succeeded_insert hnone
    rw [if_neg hfails]
    exact execute_part_of_none hnone _ _
  split_ifs with hxs
  · rw [succeeded_part_iff hname htable] at hxs
    have hloop := insert_of_none hxs
    obtain ⟨rows, hrows⟩ : ∃ rows, rows = table.rows ++ builtRows stmt table.schema xs := ⟨_, rfl⟩
    rw [Nat.zero_add, ← hrows] at hloop
    have hstep : step db (part stmt xs) = db.setRows stmt.tableName rows := by
      rw [SqlConstraints.step, execute_part hname htable, hloop]
    have htable' : (db.setRows stmt.tableName rows).tables[stmt.tableName]? =
        some { table with rows := rows } :=
      setRows_self htable _
    have hloop' : forEach (insertTurn stmt table.schema) (table.rows, 0) (xs ++ ys) =
        forEach (insertTurn stmt table.schema) (rows, xs.length + 0) ys := by
      rw [forEach_append_of_none (hbody table.schema) hxs, hloop, Nat.add_zero]
    rw [insert_count] at hloop'
    rw [hstep, SqlConstraints.step, execute_part hname htable, hloop',
      execute_part hname htable', setRows_setRows]
    dsimp only
    rcases (forEach (insertTurn stmt table.schema) (rows, 0) ys).thrown with _ | e
    · simp [caught, outcome, plus, Int32.ofNat_add]
    · simp [caught, outcome, plus]
  · rw [succeeded_part_iff hname htable] at hxs
    obtain ⟨e, he⟩ := Option.ne_none_iff_exists'.mp hxs
    obtain ⟨hthrown, hstate⟩ := forEach_append_of_some (hbody table.schema) he ys
    rw [execute_part hname htable, execute_part hname htable, hthrown, hstate, he]

/-! ### SELECT -/

/-- The page with the number `k`, of `limit` rows. -/
def pageOf (stmt : SelectStatement) (limit : Int32) (k : ℕ) : SelectStatement :=
  { stmt with limit := limit, offset := Int32.ofNat (k * limit.toInt.toNat) }

def whole (stmt : SelectStatement) : SelectStatement := { stmt with limit := -1, offset := 0 }

def rowsOf (answer : Option (QueryResult D)) : List (Row D) := answer.elim [] QueryResult.rows

/-- What an answer says beside its rows. -/
def heading (answer : Option (QueryResult D)) : Option (Bool × String × List String) :=
  answer.map fun result => (result.success, result.errorMessage, result.columnNames)

omit [Doubles D] in
/-- Windows of one width, one behind another. -/
lemma flatMap_windows (rows : List (Row D)) (n m : ℕ) :
    (List.range m).flatMap (fun k => (rows.drop (k * n)).take n) = rows.take (m * n) := by
  induction m with
  | zero => simp
  | succ m ih =>
    rw [List.range_succ, List.flatMap_append, ih, List.flatMap_singleton, Nat.succ_mul,
      List.take_add]

omit [Doubles D] in
lemma length_insertSorted {before : Row D → Row D → Except Throw Bool} {row : Row D}
    {rows sorted : List (Row D)} (h : insertSorted before row rows = .ok sorted) :
    sorted.length = rows.length + 1 := by
  induction rows generalizing sorted with
  | nil =>
    cases h
    rfl
  | cons r rows ih =>
    obtain ⟨b, -, h⟩ := bind_eq_ok.mp h
    rcases b with _ | _
    · cases h
      rfl
    · obtain ⟨rest, hrest, h⟩ := bind_eq_ok.mp h
      cases h
      rw [List.length_cons, ih hrest, List.length_cons]

omit [Doubles D] in
lemma length_sortRows {before : Row D → Row D → Except Throw Bool} {rows sorted : List (Row D)}
    (h : sortRows before rows = .ok sorted) : sorted.length = rows.length := by
  induction rows generalizing sorted with
  | nil =>
    cases h
    rfl
  | cons row rows ih =>
    obtain ⟨rest, hrest, h⟩ := bind_eq_ok.mp h
    rw [length_insertSorted h, ih hrest, List.length_cons]

lemma length_ordered {schema : TableSchema} {orderBy : List (String × Bool)}
    {rows sorted : List (Row D)} (h : ordered schema orderBy rows = .ok sorted) :
    sorted.length = rows.length := by
  unfold ordered at h
  split_ifs at h
  · cases h
    rfl
  · exact length_sortRows h

lemma executeSelect_of_none {stmt : SelectStatement}
    (h : stmt.tableName = "" ∨ db.tables[stmt.tableName]? = none) :
    ∃ e, ∀ limit offset, executeSelect db { stmt with limit, offset } = .error e := by
  by_cases hname : stmt.tableName = ""
  · exact ⟨_, fun _ _ => executeSelect_of_eq_empty hname⟩
  · have htable := h.resolve_left hname
    refine ⟨.storage ("Table '" ++ stmt.tableName ++ "' does not exist"), fun _ _ => ?_⟩
    rw [executeSelect, if_neg hname, Database.getTable, htable]
    rfl

/-- A `SELECT` fails whatever its page is, or each page is cut out of the same rows. -/
lemma select_cases (stmt : SelectStatement)
    (hcount : ∀ table, db.tables[stmt.tableName]? = some table → table.rows.length < 2 ^ 31) :
    (∃ e, ∀ limit offset, (execute db (.select { stmt with limit, offset })).1 =
        some (caught (.error e))) ∨
      ∃ columns sorted, ∀ limit offset : Int32, 0 ≤ offset.toInt →
        offset.toInt + limit.toInt < 2 ^ 31 →
        (execute db (.select { stmt with limit, offset })).1 = some
          { columnNames := columns
            rows := (wanted limit offset sorted).map (project columns)
            rowsAffected := Int32.ofNat (wanted limit offset sorted).length
            success := true } := by
  rcases db.onTable_cases stmt.tableName with hnone | ⟨table, hname, htable⟩
  · obtain ⟨e, he⟩ := executeSelect_of_none hnone
    exact Or.inl ⟨e, fun limit offset => execute_select_of_error (he limit offset)⟩
  have hselect (limit offset : Int32) : executeSelect db { stmt with limit, offset } = _ :=
    executeSelect_of_table hname htable
  dsimp only at hselect
  rcases hcolumns : selectColumns table.schema stmt.columns with e | columns
  · refine Or.inl ⟨e, fun limit offset => execute_select_of_error ?_⟩
    rw [hselect, hcolumns]
    rfl
  simp only [hcolumns, ok_bind, filterM_selects] at hselect
  rcases hfirst : firstError (selects stmt.whereClause) table.rows with _ | e
  · simp only [hfirst, ok_bind] at hselect
    rcases hordered : ordered table.schema stmt.orderBy
      (table.rows.filter (chosen stmt.whereClause)) with e | sorted
    · refine Or.inl ⟨e, fun limit offset => execute_select_of_error ?_⟩
      rw [hselect, hordered]
      rfl
    · have hlength : sorted.length < 2 ^ 31 := by
        rw [length_ordered hordered]
        exact (List.length_filter_le _ _).trans_lt (hcount table htable)
      refine Or.inr ⟨columns, sorted, fun limit offset hoffset hend => ?_⟩
      refine execute_select_of_ok ?_
      rw [hselect, hordered, ok_bind, page_of_fits hoffset hend hlength]
      rfl
  · refine Or.inl ⟨e, fun limit offset => execute_select_of_error ?_⟩
    rw [hselect, hfirst]
    rfl

omit [Doubles D] in
lemma wanted_all (rows : List (Row D)) : wanted (-1) 0 rows = rows := rfl

omit [Doubles D] in
lemma wanted_page {limit : Int32} (hlimit : 0 < limit.toInt) {k : ℕ}
    (hk : k * limit.toInt.toNat < 2 ^ 31) (rows : List (Row D)) :
    wanted limit (Int32.ofNat (k * limit.toInt.toNat)) rows =
      (rows.drop (k * limit.toInt.toNat)).take limit.toInt.toNat := by
  unfold wanted
  rw [Int32.toInt_ofNat_of_lt hk, if_pos hlimit.le, Int.toNat_natCast]

/-- **The pages of a `SELECT`**, one behind another, are its whole answer as far as they go, and
each fails or succeeds as the whole does. -/
theorem pages_tile {stmt : SelectStatement} {limit : Int32} {m : ℕ} (hlimit : 0 < limit.toInt)
    (hend : m * limit.toInt.toNat < 2 ^ 31)
    (hcount : ∀ table, db.tables[stmt.tableName]? = some table → table.rows.length < 2 ^ 31) :
    (∀ k < m, heading (execute db (.select (pageOf stmt limit k))).1 =
        heading (execute db (.select (whole stmt))).1) ∧
      (List.range m).flatMap (fun k => rowsOf (execute db (.select (pageOf stmt limit k))).1) =
        (rowsOf (execute db (.select (whole stmt))).1).take (m * limit.toInt.toNat) := by
  rcases select_cases stmt hcount with ⟨e, he⟩ | ⟨columns, sorted, hselect⟩
  · have hpage (k : ℕ) : (execute db (.select (pageOf stmt limit k))).1 =
        (execute db (.select (whole stmt))).1 := (he _ _).trans (he _ _).symm
    have hnone : rowsOf (execute db (.select (whole stmt))).1 = [] := by
      rw [whole, he]
      rfl
    refine ⟨fun k _ => by rw [hpage], ?_⟩
    simp only [hpage, hnone, List.take_nil, List.flatMap_eq_nil_iff, implies_true]
  · have hwhole := hselect (-1) 0 (by decide) (by decide)
    rw [wanted_all] at hwhole
    have hpage : ∀ k < m, (execute db (.select (pageOf stmt limit k))).1 = some
        { columnNames := columns
          rows := ((sorted.drop (k * limit.toInt.toNat)).take limit.toInt.toNat).map
            (project columns)
          rowsAffected := Int32.ofNat
            ((sorted.drop (k * limit.toInt.toNat)).take limit.toInt.toNat).length
          success := true } := by
      intro k hk
      have hnext : (k + 1) * limit.toInt.toNat ≤ m * limit.toInt.toNat :=
        Nat.mul_le_mul_right _ hk
      rw [Nat.succ_mul] at hnext
      have hfits : k * limit.toInt.toNat < 2 ^ 31 := by omega
      have hoffset := Int32.toInt_ofNat_of_lt hfits
      rw [pageOf, hselect _ _ (by omega) (by omega), wanted_page hlimit hfits]
    constructor
    · intro k hk
      rw [hpage k hk, whole, hwhole]
      rfl
    · have hrows : ∀ k ∈ List.range m, rowsOf (execute db (.select (pageOf stmt limit k))).1 =
          ((sorted.drop (k * limit.toInt.toNat)).take limit.toInt.toNat).map
            (project columns) := fun k hk => by
        rw [hpage k (List.mem_range.mp hk)]
        rfl
      rw [List.flatMap_congr hrows, ← List.map_flatMap, flatMap_windows, whole, hwhole]
      exact List.map_take

theorem pages_tile_letters :
    (∀ k < 2, heading (execute lettersOnly (.select (pageOf firstLetter 1 k))).1 =
        heading (execute lettersOnly (.select (whole firstLetter))).1) ∧
      (List.range 2).flatMap (fun k =>
          rowsOf (execute lettersOnly (.select (pageOf firstLetter 1 k))).1) =
        (rowsOf (execute lettersOnly (.select (whole firstLetter))).1).take 2 := by
  refine pages_tile (by decide) (by decide) fun table htable => ?_
  have hletters : lettersOnly.tables[firstLetter.tableName]? = some letters :=
    ExtTreeMap.getElem?_insert_self
  rw [hletters] at htable
  cases htable
  decide

end Dbx4.SqlBatch
