import Dbx4.SqlExec

/-!
When a failing statement leaves the database as it was.

Of `INSERT` the rows before the one that is refused stay, of `UPDATE` what the assignments
have stored, and `DELETE` has moved rows when its clause throws. A failing statement leaves
the database as it was exactly when none of this has happened before it throws.
-/

namespace Dbx4.SqlAtomic

open Std Dbx4.ForEach Dbx4.SqlAst Dbx4.SqlValue Dbx4.SqlEval Dbx4.SqlExec

variable {D : Type}

lemma outcome_success {thrown : Option Throw} {result : QueryResult D}
    (h : result.success = true) :
    (caught (outcome thrown result)).success = false ↔ thrown.isSome := by
  rcases thrown with _ | e
  · simp [caught, outcome, h]
  · simp [caught, outcome]

variable [Doubles D]

/-- A statement that reports a failure leaves the database as it was. -/
def Atomic (db : Database D) (stmt : Statement) : Prop :=
  ∀ result, (execute db stmt).1 = some result → result.success = false →
    (execute db stmt).2 = db

/-- Where a statement throws, it has had no effect. -/
def ThrowsUnseen (db : Database D) : Statement → Prop
  | .insert stmt => db.OnTable stmt.tableName fun table => ∀ pre valueRow post,
      ThrowsAt (insertTurn stmt table.schema) (table.rows, 0) stmt.values pre valueRow post →
        pre = []
  | .update stmt => db.OnTable stmt.tableName fun table => ∀ pre row post,
      ThrowsAt (updateTurn stmt table.schema) ([], 0) table.rows pre row post →
        ∀ r ∈ pre ++ [row], settled stmt table.schema r = r
  | .delete stmt => db.OnTable stmt.tableName fun table => ∀ pre row post,
      ThrowsAt (removeTurn stmt.whereClause) ([], []) table.rows pre row post →
        pre.Pairwise fun r r' =>
          selects stmt.whereClause r = .ok true → selects stmt.whereClause r' = .ok true
  | _ => True

/-! ### Statements with a loop -/

/-- A statement that sets the rows of a table, whether it throws or not. -/
lemma atomic_iff_of_setRows {db : Database D} {stmt : Statement} {name : String}
    {table : Table D} (htable : db.tables[name]? = some table) {thrown : Option Throw}
    {rows : List (Row D)} {result : QueryResult D} (hresult : result.success = true)
    (h : execute db stmt = (some (caught (outcome thrown result)), db.setRows name rows)) :
    Atomic db stmt ↔ (thrown.isSome → rows = table.rows) := by
  rw [Atomic, h]
  simp only [Option.some.injEq, forall_eq', outcome_success hresult,
    Database.setRows_eq_iff htable]

/-! ### INSERT -/

lemma insert_unseen_iff {stmt : InsertStmt} {schema : TableSchema} {rows : List (Row D)}
    {pre post : List (List Expression)} {valueRow : List Expression}
    (h : ThrowsAt (insertTurn stmt schema) (rows, 0) stmt.values pre valueRow post) :
    (forEach (insertTurn stmt schema) (rows, 0) stmt.values).state.1 = rows ↔ pre = [] := by
  obtain ⟨t, e, t', hpasses, hthrow, hleft⟩ := h.forEach
  rw [h.1] at hpasses
  -- every list of values before has given a row
  obtain ⟨news, hnews, hlen⟩ := hpasses.visited
    (P := fun pre (s : List (Row D) × ℕ) => ∃ news, s.1 = rows ++ news ∧ news.length = pre.length)
    (fun pre s x xs s' ⟨news, hnews, hlen⟩ hbody => by
      obtain ⟨newRow, -, rfl⟩ := insertTurn_ok hbody
      exact ⟨news ++ [newRow], by rw [hnews, List.append_assoc], by simp [hlen]⟩)
    ⟨[], by simp, rfl⟩
  rw [hleft, insertTurn_throw hthrow, hnews, List.append_right_eq_self,
    ← List.length_eq_zero_iff, hlen, List.length_eq_zero_iff]

/-! ### UPDATE -/

lemma update_visited {stmt : UpdateStmt} {schema : TableSchema} {pre xs : List (Row D)}
    {t : List (Row D) × ℕ} (h : Passes (updateTurn stmt schema) ([], 0) (pre ++ xs) t xs) :
    t.1 = pre.map (settled stmt schema) := by
  refine h.visited (P := fun pre (s : List (Row D) × ℕ) => s.1 = pre.map (settled stmt schema))
    (fun pre s x xs s' hs hbody => ?_) rfl
  have hrows := updateTurn_rows stmt schema s x xs
  rw [hbody] at hrows
  rw [hrows, hs, List.map_append, List.map_singleton]

/-- The rows an `UPDATE` leaves behind where it throws. -/
lemma update_left {stmt : UpdateStmt} {schema : TableSchema} {rows pre post : List (Row D)}
    {row : Row D} (h : ThrowsAt (updateTurn stmt schema) ([], 0) rows pre row post) :
    (forEach (updateTurn stmt schema) ([], 0) rows).state.1 ++
        (forEach (updateTurn stmt schema) ([], 0) rows).unvisited =
      pre.map (settled stmt schema) ++ settled stmt schema row :: post := by
  obtain ⟨t, e, t', hpasses, hthrow, hleft⟩ := h.forEach
  rw [h.1] at hpasses
  have hrows := updateTurn_rows stmt schema t row post
  rw [hthrow, update_visited hpasses] at hrows
  rw [hleft, hrows, List.append_assoc, List.singleton_append]

lemma update_unseen_iff {stmt : UpdateStmt} {schema : TableSchema} {rows pre post : List (Row D)}
    {row : Row D} (h : ThrowsAt (updateTurn stmt schema) ([], 0) rows pre row post) :
    (forEach (updateTurn stmt schema) ([], 0) rows).state.1 ++
        (forEach (updateTurn stmt schema) ([], 0) rows).unvisited = rows ↔
      ∀ r ∈ pre ++ [row], settled stmt schema r = r := by
  have hmap : pre.map (settled stmt schema) ++ settled stmt schema row :: post =
      (pre ++ [row]).map (settled stmt schema) ++ post := by simp
  have hrows : rows = (pre ++ [row]).map id ++ post := by simp [h.1]
  rw [update_left h, hmap]
  nth_rewrite 1 [hrows]
  rw [List.append_left_inj, List.map_inj_left]
  rfl

/-! ### DELETE -/

/-- The rows behind the kept ones: either every row visited is still there, in its order, or
a row that was kept has been moved over one that was not. -/
def InPlaceOrMoved (whereClause : Option Expression) (pre : List (Row D))
    (s : List (Row D) × List (Row D)) : Prop :=
  (pre = s.1 ++ s.2 ∧ (∀ r ∈ s.1, selects whereClause r = .ok false) ∧
      ∀ r ∈ s.2, selects whereClause r = .ok true) ∨
    ∃ ks d mid k tail ks', pre = ks ++ d :: mid ++ k :: tail ∧ s.1 = ks ++ k :: ks' ∧
      selects whereClause d = .ok true ∧ selects whereClause k = .ok false

lemma inPlaceOrMoved_step {whereClause : Option Expression} (pre : List (Row D))
    (s : List (Row D) × List (Row D)) (row : Row D) (rest : List (Row D))
    (s' : List (Row D) × List (Row D)) (h : InPlaceOrMoved whereClause pre s)
    (hbody : removeTurn whereClause s row rest = (none, s')) :
    InPlaceOrMoved whereClause (pre ++ [row]) s' := by
  obtain ⟨kept, gap⟩ := s
  rcases h with ⟨rfl, hkept, hgap⟩ | ⟨ks, d, mid, k, tail, ks', rfl, rfl, hd, hk⟩
  · rcases removeTurn_ok hbody with ⟨hsel, rfl⟩ | ⟨hsel, ⟨rfl, rfl⟩ | ⟨r, rs, rfl, rfl⟩⟩
    · refine Or.inl ⟨by simp, hkept, fun r hr => ?_⟩
      rcases List.mem_append.mp hr with hr | hr
      · exact hgap r hr
      · rwa [List.mem_singleton.mp hr]
    · refine Or.inl ⟨by simp, fun r hr => ?_, by simp⟩
      rcases List.mem_append.mp hr with hr | hr
      · exact hkept r hr
      · rwa [List.mem_singleton.mp hr]
    · exact Or.inr ⟨kept, r, rs, row, [], [], by simp, rfl, hgap r (by simp), hsel⟩
  · refine Or.inr ⟨ks, d, mid, k, tail ++ [row], ?_⟩
    rcases removeTurn_ok hbody with ⟨-, rfl⟩ | ⟨-, ⟨-, rfl⟩ | ⟨r, rs, -, rfl⟩⟩
    · exact ⟨ks', by simp, rfl, hd, hk⟩
    · exact ⟨ks' ++ [row], by simp, by simp, hd, hk⟩
    · exact ⟨ks' ++ [row], by simp, by simp, hd, hk⟩

lemma delete_unseen_iff {whereClause : Option Expression} {rows pre post : List (Row D)}
    {row : Row D} (h : ThrowsAt (removeTurn whereClause) ([], []) rows pre row post) :
    (forEach (removeTurn whereClause) ([], []) rows).state.1 ++
        (forEach (removeTurn whereClause) ([], []) rows).state.2 ++
          (forEach (removeTurn whereClause) ([], []) rows).unvisited = rows ↔
      pre.Pairwise fun r r' =>
        selects whereClause r = .ok true → selects whereClause r' = .ok true := by
  obtain ⟨⟨kept, gap⟩, e, t', hpasses, hthrow, hleft⟩ := h.forEach
  rw [h.1] at hpasses
  have hinv : InPlaceOrMoved whereClause pre (kept, gap) :=
    hpasses.visited inPlaceOrMoved_step (Or.inl ⟨rfl, by simp, by simp⟩)
  rw [hleft, removeTurn_throw hthrow, h.1]
  rcases hinv with ⟨rfl, hkept, hgap⟩ | ⟨ks, d, mid, k, tail, ks', rfl, hk', hd, hk⟩
  · refine ⟨fun _ => ?_, fun _ => by simp⟩
    refine List.pairwise_append.mpr ⟨?_, ?_, fun r _ r' hr' _ => hgap r' hr'⟩
    · exact List.pairwise_of_forall_mem_list fun r hr r' _ hsel => by simp [hkept r hr] at hsel
    · exact List.pairwise_of_forall_mem_list fun r _ r' hr' _ => hgap r' hr'
  · refine ⟨fun he => ?_, fun hpair => ?_⟩
    · -- the place of the removed row is taken
      dsimp only at hk' he
      rw [hk'] at he
      have hdk : k = d := by
        simp only [List.append_assoc, List.append_cancel_left_eq, List.cons_append,
          List.cons.injEq] at he
        exact he.1
      rw [hdk, hd] at hk
      cases hk
    · rw [List.append_assoc] at hpair
      have hcons := (List.pairwise_append.mp hpair).2.1
      rw [List.cons_append, List.pairwise_cons] at hcons
      have hsel := hcons.1 k (by simp) hd
      rw [hk] at hsel
      cases hsel

/-! ### All statements -/

lemma atomic_of_unchanged {db : Database D} {stmt : Statement} (h : (execute db stmt).2 = db) :
    Atomic db stmt := fun _ _ _ => h

/-- A statement without its table changes nothing. -/
lemma atomic_iff_onTable {db : Database D} {stmt : Statement} {name : String}
    {Q : Table D → Prop} (hnone : name = "" ∨ db.tables[name]? = none → (execute db stmt).2 = db)
    (hsome : ∀ table, name ≠ "" → db.tables[name]? = some table → (Atomic db stmt ↔ Q table)) :
    Atomic db stmt ↔ db.OnTable name Q := by
  rcases db.onTable_cases name with h | ⟨table, hname, htable⟩
  · exact iff_of_true (atomic_of_unchanged (hnone h)) (Database.onTable_of_none h)
  · exact (hsome table hname htable).trans (Database.onTable_iff hname htable).symm

lemma atomic_insert_iff (db : Database D) (stmt : InsertStmt) :
    Atomic db (.insert stmt) ↔ ThrowsUnseen db (.insert stmt) := by
  refine atomic_iff_onTable execute_insert_of_none fun table hname htable => ?_
  rw [← thrown_imp_iff fun pre valueRow post h => insert_unseen_iff h]
  exact atomic_iff_of_setRows htable (by rfl) (execute_insert hname htable)

lemma atomic_update_iff (db : Database D) (stmt : UpdateStmt) :
    Atomic db (.update stmt) ↔ ThrowsUnseen db (.update stmt) := by
  refine atomic_iff_onTable execute_update_of_none fun table hname htable => ?_
  rw [← thrown_imp_iff fun pre row post h => update_unseen_iff h]
  exact atomic_iff_of_setRows htable (by rfl) (execute_update hname htable)

lemma atomic_delete_iff (db : Database D) (stmt : DeleteStmt) :
    Atomic db (.delete stmt) ↔ ThrowsUnseen db (.delete stmt) := by
  refine atomic_iff_onTable execute_delete_of_none fun table hname htable => ?_
  rw [← thrown_imp_iff fun pre row post h => delete_unseen_iff h,
    atomic_iff_of_setRows htable (by rfl) (execute_delete hname htable)]
  refine forall_congr' fun hthrown => ?_
  rw [if_pos hthrown]

/-- **When a failing statement leaves the database as it was**: a failing `INSERT` when it
fails at its first list of values, a failing `UPDATE` when it has given no row a new value,
a failing `DELETE` when no row to keep lies behind a row to delete, any other always. -/
theorem atomic_iff (db : Database D) (stmt : Statement) :
    Atomic db stmt ↔ ThrowsUnseen db stmt := by
  cases stmt with
  | createTable stmt =>
    refine iff_of_true ?_ trivial
    rcases executeCreateTable_cases db stmt with ⟨e, he⟩ | ⟨-, he⟩
    · exact atomic_of_unchanged (by simp [execute, he])
    · intro result hresult hfailed
      simp only [execute, he, Option.some.injEq] at hresult
      rw [← hresult] at hfailed
      cases hfailed
  | select stmt => exact iff_of_true (atomic_of_unchanged (execute_select db stmt)) trivial
  | insert stmt => exact atomic_insert_iff db stmt
  | update stmt => exact atomic_update_iff db stmt
  | delete stmt => exact atomic_delete_iff db stmt
  | other => exact iff_of_true (atomic_of_unchanged rfl) trivial

/-- A table with a `UNIQUE` column, and no rows. -/
def uniqueTable : Database ℚ :=
  { tables := (∅ : ExtTreeMap String (Table ℚ)).insert "t"
      { schema := .ofColumns "t" [{ name := "a", type := .VARCHAR, unique := true }] } }

/-- An `INSERT` of one value twice leaves the first row behind. -/
theorem not_atomic_insert : ¬ Atomic uniqueTable (.insert
    { tableName := "t", values := [[.literal "x" .STRING], [.literal "x" .STRING]] }) := by
  intro h
  have hrows := congrArg (fun db => db.tables["t"]?.map fun table => table.rows.length)
    (h _ rfl (by decide))
  revert hrows
  decide

end Dbx4.SqlAtomic
