import Dbx4.SqlSchema
import Dbx4.SqlTypes
import Dbx4.WeakOrder

/-!
When `ORDER BY` compares the rows of every table by a strict weak order.

The comparison puts nulls at one end, orders values of one type, and calls all others equal. So
it is an order on the values of a column unless two of them are in order and a third one is
of another type. Such values meet, since `INSERT` converts defaults and leaves literals alone.
-/

namespace Dbx4.SqlOrder

open Std Dbx4.ForEach Dbx4.Maps Dbx4.Runs Dbx4.SqlAst Dbx4.SqlValue Dbx4.SqlEval Dbx4.SqlExec
open Dbx4.SqlAtomic Dbx4.SqlRows Dbx4.SqlConstraints Dbx4.SqlTypes Dbx4.SqlSchema Dbx4.WeakOrder

variable {D : Type} [Doubles D]

/-- The laws of `<` on a `double`: what is no number does not equal itself, and is in no order
with anything. -/
class LawfulDoubles (D : Type) [Doubles D] : Prop where
  lt_asymm (x y : D) : Doubles.lt x y = true → Doubles.lt y x = false
  lt_or_lt (x y z : D) :
    Doubles.lt x z = true → Doubles.eq y y = true → Doubles.lt x y = true ∨ Doubles.lt y z = true
  eq_self_of_lt (x y : D) :
    Doubles.lt x y = true → Doubles.eq x x = true ∧ Doubles.eq y y = true

instance : LawfulDoubles ℚ where
  lt_asymm x y h := decide_eq_false (not_lt_of_gt (of_decide_eq_true h))
  lt_or_lt x y z h _ := by
    have hxz : x < z := of_decide_eq_true h
    exact (lt_or_ge x y).imp decide_eq_true fun hy => decide_eq_true (hy.trans_lt hxz)
  eq_self_of_lt x y _ := ⟨decide_eq_true rfl, decide_eq_true rfl⟩

/-! ### Two values -/

/-- Two integers, two doubles or two texts in their order. -/
def Precedes : Value D → Value D → Prop
  | .int a, .int b => a < b
  | .double a, .double b => Doubles.lt a b = true
  | .string a, .string b => a < b
  | _, _ => False

/-- A value has a place in the order of the values of another one's type. -/
def InOrderOf : Value D → Value D → Prop
  | .int _, .int _ => True
  | .double _, .double w => Doubles.eq w w = true
  | .string _, .string _ => True
  | _, _ => False

/-- The comparison of two values in ascending order, nulls first. -/
def compareNulls (u v : Value D) : Ordering :=
  if u.isNull && v.isNull then .eq
  else if u.isNull then .lt
  else if v.isNull then .gt
  else compareValues u v

lemma compareValues_eq_lt_iff (u v : Value D) : compareValues u v = .lt ↔ Precedes u v := by
  cases u <;> cases v <;> simp only [compareValues, Precedes, reduceCtorEq, iff_self]
  case int.int a b => split_ifs <;> simp_all
  case double.double a b => split_ifs <;> simp_all
  case string.string a b => exact compareOfLessAndEq_eq_lt

variable [LawfulDoubles D]

lemma compareValues_swap (u v : Value D) : compareValues u v = (compareValues v u).swap := by
  cases u <;> cases v <;> try rfl
  case int.int a b =>
    simp only [compareValues, Int64.lt_iff_toInt_lt]
    split_ifs <;> first | rfl | omega
  case double.double a b =>
    have hasymm := LawfulDoubles.lt_asymm a b
    simp only [compareValues]
    split_ifs with hab hba hba
    · simp [hasymm hab] at hba
    · rfl
    · rfl
    · rfl
  case string.string a b => exact OrientedOrd.eq_swap

lemma precedes_split_iff {u v w : Value D} (h : Precedes u v) :
    Precedes u w ∨ Precedes w v ↔ InOrderOf u w := by
  cases u <;> cases v <;> try cases h
  case int.int a b =>
    cases w <;> simp only [Precedes, InOrderOf, or_self, iff_true]
    case int c =>
      simp only [Precedes, Int64.lt_iff_toInt_lt] at h ⊢
      omega
  case double.double a b =>
    cases w <;> simp only [Precedes, InOrderOf, or_self]
    case double c =>
      refine ⟨fun hc => ?_, LawfulDoubles.lt_or_lt a c b h⟩
      rcases hc with hc | hc
      · exact (LawfulDoubles.eq_self_of_lt _ _ hc).2
      · exact (LawfulDoubles.eq_self_of_lt _ _ hc).1
  case string.string a b =>
    cases w <;> simp only [Precedes, InOrderOf, or_self, iff_true]
    case string c =>
      have hab : a < b := h
      by_cases hac : a < c
      · exact Or.inl hac
      · exact Or.inr (Std.lt_of_le_of_lt (String.not_lt.mp hac) hab)

omit [LawfulDoubles D] in
lemma Precedes.isNull {u v : Value D} (h : Precedes u v) :
    u.isNull = false ∧ v.isNull = false := by
  cases u <;> cases v <;> first | exact ⟨rfl, rfl⟩ | cases h

omit [LawfulDoubles D] in
lemma compareNulls_eq_lt_iff (u v : Value D) :
    compareNulls u v = .lt ↔ (u.isNull = true ∧ v.isNull = false) ∨ Precedes u v := by
  have hnot (h : ¬ (u.isNull = false ∧ v.isNull = false)) : ¬ Precedes u v :=
    mt Precedes.isNull h
  unfold compareNulls
  rcases hu : u.isNull <;> rcases hv : v.isNull
  · simp [compareValues_eq_lt_iff]
  · simp [hnot, hv]
  · simp
  · simp [hnot, hu]

lemma compareNulls_swap (u v : Value D) : compareNulls u v = (compareNulls v u).swap := by
  rcases hu : u.isNull <;> rcases hv : v.isNull <;> simp only [compareNulls, hu, hv]
  · exact compareValues_swap u v
  · rfl
  · rfl
  · rfl

/-- A third value stands between two that are in order, unless it is of another type than two
that are no nulls. -/
lemma compareNulls_split_iff {u v : Value D} (w : Value D) (h : compareNulls u v = .lt) :
    compareNulls u w = .lt ∨ compareNulls w v = .lt ↔
      (Precedes u v → w.isNull = true ∨ InOrderOf u w) := by
  simp only [compareNulls_eq_lt_iff] at h ⊢
  rcases h with ⟨hu, hv⟩ | h
  · have hnot : ¬ Precedes u v := mt Precedes.isNull (by simp [hu])
    refine iff_of_true ?_ fun h => absurd h hnot
    rcases hw : w.isNull
    · exact Or.inl (Or.inl ⟨hu, rfl⟩)
    · exact Or.inr (Or.inl ⟨rfl, hv⟩)
  · obtain ⟨hu, hv⟩ := h.isNull
    rw [← precedes_split_iff h]
    simp only [hu, hv, Bool.false_eq_true, false_and, false_or, and_true]
    exact ⟨fun hw _ => or_left_comm.mp hw, fun hw => or_left_comm.mp (hw h)⟩

/-! ### Rows by their keys -/

/-- The comparison by one column in ascending order. -/
def columnCompare (colName : String) (a b : Row D) : Ordering :=
  match a[colName]?, b[colName]? with
  | some u, some v => compareNulls u v
  | _, _ => .eq

/-- The comparison by one key: descending is the other way round. -/
def keyCompare (key : String × Bool) (a b : Row D) : Ordering :=
  if key.2 then columnCompare key.1 b a else columnCompare key.1 a b

omit [LawfulDoubles D] in
lemma columnCompare_of_values {colName : String} {a b : Row D} {u v : Value D}
    (ha : a[colName]? = some u) (hb : b[colName]? = some v) :
    columnCompare colName a b = compareNulls u v := by
  rw [columnCompare, ha, hb]

omit [Doubles D] [LawfulDoubles D] in
lemma exists_value {colName : String} {row : Row D} (h : colName ∈ row) :
    ∃ v, row[colName]? = some v := ⟨_, ExtTreeMap.getElem?_eq_some_getElem h⟩

/-- **The comparison of the sort** is that of its keys, the first one deciding on which the rows
differ. -/
lemma goesBefore_eq {check : String → Except Throw Unit} {orderBy : List (String × Bool)}
    {a b : Row D} (hcheck : ∀ key ∈ orderBy, check key.1 = .ok ())
    (ha : ∀ key ∈ orderBy, key.1 ∈ a) (hb : ∀ key ∈ orderBy, key.1 ∈ b) :
    goesBefore check orderBy a b = .ok (lexAll (orderBy.map keyCompare) a b).isLT := by
  induction orderBy with
  | nil => rfl
  | cons key orderBy ih =>
    obtain ⟨hkey, hcheck⟩ := List.forall_mem_cons.mp hcheck
    obtain ⟨hka, ha⟩ := List.forall_mem_cons.mp ha
    obtain ⟨hkb, hb⟩ := List.forall_mem_cons.mp hb
    obtain ⟨u, hu⟩ := exists_value hka
    obtain ⟨v, hv⟩ := exists_value hkb
    have hrest := ih hcheck ha hb
    obtain ⟨colName, isDesc⟩ := key
    have hab : keyCompare (colName, isDesc) a b =
        if isDesc then compareNulls v u else compareNulls u v := by
      rw [keyCompare, columnCompare_of_values hu hv, columnCompare_of_values hv hu]
    rw [goesBefore, hkey, ok_bind, valueAt, hu, ok_bind, valueAt, hv, ok_bind, hrest,
      List.map_cons, lexAll_cons, hab]
    unfold compareNulls
    rcases hunull : u.isNull <;> rcases hvnull : v.isNull <;> cases isDesc
    case false.false.true =>
      rw [compareValues_swap u v]
      rcases compareValues v u <;> rfl
    case false.false.false => rcases compareValues u v <;> rfl
    all_goals rfl

/-! ### The rows of a table -/

/-- The comparison by a list of keys returns on any two of the rows, and what goes before what
is a strict weak order. -/
structure Sorts (check : String → Except Throw Unit) (orderBy : List (String × Bool))
    (rows : List (Row D)) : Prop where
  returns : ∀ a ∈ rows, ∀ b ∈ rows, ∃ before, goesBefore check orderBy a b = .ok before
  weakOrder : IsStrictWeakOrder {row // row ∈ rows} fun a b =>
    goesBefore check orderBy a.1 b.1 = .ok true

/-- The rows can be sorted by any list of columns. -/
def Sortable (schema : TableSchema) (rows : List (Row D)) : Prop :=
  ∀ orderBy : List (String × Bool), (∀ key ∈ orderBy, key.1 ∈ schema.columnIndex) →
    Sorts (fun colName => validateColumnExists colName schema) orderBy rows

/-- The values that rows have in a column. -/
def InColumn (colName : String) (stored : Row D → Prop) (v : Value D) : Prop :=
  ∃ row, stored row ∧ row[colName]? = some v

/-- Where two values are in order, every third one is a null or has a place in that order. -/
def OneOrder (values : Value D → Prop) : Prop :=
  ∀ u v w, values u → values v → values w → Precedes u v → w.isNull = true ∨ InOrderOf u w

def Complete (schema : TableSchema) (row : Row D) : Prop :=
  ∀ colName ∈ schema.columnIndex, colName ∈ row

/-- Every row has a value in every column, and the values of each column are in one order. -/
structure Comparable (schema : TableSchema) (rows : List (Row D)) : Prop where
  complete : ∀ row ∈ rows, Complete schema row
  oneOrder : ∀ colName ∈ schema.columnIndex, OneOrder (InColumn colName (· ∈ rows))

section Columns

variable {colName : String} {rows : List (Row D)}

instance : OrientedCmp fun a b : {row // row ∈ rows} => columnCompare colName a.1 b.1 where
  eq_swap {a b} := by
    unfold columnCompare
    rcases a.1[colName]? with _ | u <;> rcases b.1[colName]? with _ | v <;> try rfl
    exact compareNulls_swap u v

/-- The comparison by a column is transitive on rows whose values are in one order. -/
lemma transCmp_columnCompare_iff (h : ∀ row ∈ rows, colName ∈ row) :
    TransCmp (fun a b : {row // row ∈ rows} => columnCompare colName a.1 b.1) ↔
      OneOrder (InColumn colName (· ∈ rows)) := by
  rw [transCmp_iff]
  constructor
  · rintro hsplit u v w ⟨a, ha, hu⟩ ⟨c, hc, hv⟩ ⟨b, hb, hw⟩ huv
    have hlt : compareNulls u v = .lt := (compareNulls_eq_lt_iff u v).mpr (Or.inr huv)
    have habc := hsplit ⟨a, ha⟩ ⟨b, hb⟩ ⟨c, hc⟩
    simp only [columnCompare_of_values hu hv, columnCompare_of_values hu hw,
      columnCompare_of_values hw hv] at habc
    exact (compareNulls_split_iff w hlt).mp (habc hlt) huv
  · rintro horder ⟨a, ha⟩ ⟨b, hb⟩ ⟨c, hc⟩ hac
    obtain ⟨u, hu⟩ := exists_value (h a ha)
    obtain ⟨w, hw⟩ := exists_value (h b hb)
    obtain ⟨v, hv⟩ := exists_value (h c hc)
    simp only [columnCompare_of_values hu hv, columnCompare_of_values hu hw,
      columnCompare_of_values hw hv] at hac ⊢
    exact (compareNulls_split_iff w hac).mpr (horder u v w ⟨a, ha, hu⟩ ⟨c, hc, hv⟩ ⟨b, hb, hw⟩)

omit [LawfulDoubles D] in
/-- A row without a value in a column cannot be compared by it. -/
lemma mem_of_returns {check : String → Except Throw Unit} {row : Row D} {before : Bool}
    (h : goesBefore check [(colName, false)] row row = .ok before) : colName ∈ row := by
  obtain ⟨-, -, h⟩ := bind_eq_ok.mp h
  obtain ⟨v, hv, -⟩ := bind_eq_ok.mp h
  rw [valueAt] at hv
  split at hv
  case h_1 v hvalue => exact mem_of_getElem? hvalue
  case h_2 => cases hv

end Columns

lemma sorts_of_comparable {schema : TableSchema} {rows : List (Row D)}
    (h : Comparable schema rows) {orderBy : List (String × Bool)}
    (hkeys : ∀ key ∈ orderBy, key.1 ∈ schema.columnIndex) :
    Sorts (fun colName => validateColumnExists colName schema) orderBy rows := by
  have hbefore {a b : Row D} (ha : a ∈ rows) (hb : b ∈ rows) :
      goesBefore (fun colName => validateColumnExists colName schema) orderBy a b =
        .ok (lexAll (orderBy.map keyCompare) a b).isLT :=
    goesBefore_eq (fun key hkey => if_pos (hkeys key hkey))
      (fun key hkey => h.complete a ha _ (hkeys key hkey))
      fun key hkey => h.complete b hb _ (hkeys key hkey)
  refine ⟨fun a ha b hb => ⟨_, hbefore ha hb⟩, ?_⟩
  have hkey : ∀ cmp ∈ (orderBy.map keyCompare).map
      fun cmp (a b : {row // row ∈ rows}) => cmp a.1 b.1, TransCmp cmp := by
    simp only [List.forall_mem_map]
    rintro ⟨colName, isDesc⟩ hmem
    have hcol := hkeys _ hmem
    have htrans : TransCmp fun a b : {row // row ∈ rows} => columnCompare colName a.1 b.1 :=
      (transCmp_columnCompare_iff fun row hrow => h.complete row hrow _ hcol).mpr
        (h.oneOrder colName hcol)
    cases isDesc
    · exact htrans
    · exact @TransCmp.opposite _ _ htrans
  have htrans := transCmp_lexAll hkey
  have hlt : (fun a b : {row // row ∈ rows} => goesBefore
      (fun colName => validateColumnExists colName schema) orderBy a.1 b.1 = .ok true) =
      fun a b => lexAll ((orderBy.map keyCompare).map
        fun cmp (a b : {row // row ∈ rows}) => cmp a.1 b.1) a b = .lt := by
    ext a b
    rw [hbefore a.2 b.2, lexAll_on Subtype.val]
    simp
  rw [hlt]
  exact isStrictWeakOrder_iff.mpr htrans

/-- **When the rows of a table can be sorted by any columns**: exactly when every row has a value
in every column and the values of each column are in one order. -/
theorem sortable_iff {schema : TableSchema} {rows : List (Row D)} :
    Sortable schema rows ↔ Comparable schema rows := by
  refine ⟨fun h => ?_, fun h orderBy hkeys => sorts_of_comparable h hkeys⟩
  have hsorts (colName : String) (hcol : colName ∈ schema.columnIndex) :
      Sorts (fun colName => validateColumnExists colName schema) [(colName, false)] rows :=
    h _ (by simpa using hcol)
  have hcomplete : ∀ row ∈ rows, Complete schema row := fun row hrow colName hcol => by
    obtain ⟨before, hbefore⟩ := (hsorts colName hcol).returns row hrow row hrow
    exact mem_of_returns hbefore
  refine ⟨hcomplete, fun colName hcol => ?_⟩
  have hlt : (fun a b : {row // row ∈ rows} => goesBefore
      (fun colName => validateColumnExists colName schema) [(colName, false)] a.1 b.1 =
        .ok true) = fun a b => columnCompare colName a.1 b.1 = .lt := by
    ext a b
    rw [goesBefore_eq (List.forall_mem_singleton.mpr (if_pos hcol))
      (List.forall_mem_singleton.mpr (hcomplete a.1 a.2 colName hcol))
      (List.forall_mem_singleton.mpr (hcomplete b.1 b.2 colName hcol))]
    simp [keyCompare]
  have hweak := (hsorts colName hcol).weakOrder
  rw [hlt, isStrictWeakOrder_iff] at hweak
  exact (transCmp_columnCompare_iff fun row hrow => hcomplete row hrow colName hcol).mp hweak

/-! ### One statement -/

omit [LawfulDoubles D]

lemma complete_of_buildRow {name : String} {stmt : InsertStmt} {schema : TableSchema}
    (hschema : schema = .ofColumns name schema.columns) {valueRow : List Expression} {row : Row D}
    (h : buildRow stmt schema valueRow = .ok row) : Complete schema row := by
  intro colName hcol
  rw [hschema] at hcol
  obtain ⟨col, hmem, rfl⟩ := mem_columnIndex_ofColumns.mp hcol
  have hvalue := buildRow_getElem? h hmem
  rcases hlast : lastFor col.name (written stmt schema valueRow) with _ | expr <;>
    rw [hlast] at hvalue
  · obtain ⟨first, v, -, -, hv⟩ := hvalue
    exact mem_of_getElem? hv
  · obtain ⟨v, -, hv⟩ := hvalue
    exact mem_of_getElem? hv

lemma mem_settled (stmt : UpdateStmt) (schema : TableSchema) {row : Row D} {colName : String}
    (h : colName ∈ row) : colName ∈ settled stmt schema row := by
  unfold settled
  split
  · refine forEach_inv (P := fun (row : Row D) _ => colName ∈ row) (fun row a as hrow => ?_) h
    dsimp only [assignTurn]
    rcases validateColumnExists a.1 schema with e | _
    · exact hrow
    · rcases evaluateExpression a.2 row with e | v
      · exact hrow
      · exact (mem_insert_iff _ _ _ _).mpr (Or.inr hrow)
  · exact h

lemma OneOrder.mono {values values' : Value D → Prop} (h : OneOrder values)
    (hsub : ∀ v, values' v → values v) : OneOrder values' :=
  fun u v w hu hv hw => h u v w (hsub u hu) (hsub v hv) (hsub w hw)

lemma Comparable.subset {schema : TableSchema} {rows rows' : List (Row D)}
    (h : Comparable schema rows) (hsub : rows' ⊆ rows) : Comparable schema rows' where
  complete row hrow := h.complete row (hsub hrow)
  oneOrder colName hcol := (h.oneOrder colName hcol).mono
    fun _ ⟨row, hrow, hv⟩ => ⟨row, hsub hrow, hv⟩

/-- What keeps the rows of the tables comparable: the values in a column of an `INSERT`'s table
are in one order with those it appends, so are those an `UPDATE` leaves, and a `DELETE` that
throws leaves the rows as they were. -/
def StoresComparable (db : Database D) : Statement → Prop
  | .insert stmt => db.OnTable stmt.tableName fun table =>
      ∀ colName ∈ table.schema.columnIndex, OneOrder (InColumn colName fun row =>
        row ∈ table.rows ∨ Appended stmt table.schema table.rows row)
  | .update stmt => db.OnTable stmt.tableName fun table =>
      ∀ colName ∈ table.schema.columnIndex,
        OneOrder (InColumn colName (Updated stmt table.schema table.rows))
  | .delete stmt => ThrowsUnseen db (.delete stmt)
  | _ => True

lemma comparable_insertLeaves_iff {name : String} {stmt : InsertStmt} {schema : TableSchema}
    (hschema : schema = .ofColumns name schema.columns) {rows : List (Row D)}
    (h : Comparable schema rows) :
    Comparable schema (insertLeaves stmt schema rows) ↔ ∀ colName ∈ schema.columnIndex,
      OneOrder (InColumn colName fun row => row ∈ rows ∨ Appended stmt schema rows row) := by
  have hcomplete : ∀ row ∈ insertLeaves stmt schema rows, Complete schema row := by
    intro row hrow
    rcases mem_insertLeaves.mp hrow with hrow | ⟨s, valueRow, post, -, haccept⟩
    · exact h.complete row hrow
    · exact complete_of_buildRow hschema (buildRow_of_acceptRow haccept)
  simp only [← mem_insertLeaves]
  exact ⟨Comparable.oneOrder, fun horder => ⟨hcomplete, horder⟩⟩

lemma comparable_updateLeaves_iff {stmt : UpdateStmt} {schema : TableSchema}
    {rows : List (Row D)} (h : Comparable schema rows) :
    Comparable schema (updateLeaves stmt schema rows) ↔ ∀ colName ∈ schema.columnIndex,
      OneOrder (InColumn colName (Updated stmt schema rows)) := by
  have hcomplete : ∀ row ∈ updateLeaves stmt schema rows, Complete schema row := by
    refine (forall_updateLeaves_iff h.complete).mpr fun s row post hpasses colName hcol => ?_
    have hrow : row ∈ rows := hpasses.suffix.subset List.mem_cons_self
    exact mem_settled stmt schema (h.complete row hrow colName hcol)
  have hleaves : Updated stmt schema rows = (· ∈ updateLeaves stmt schema rows) := by
    ext row
    exact mem_updateLeaves.symm
  rw [hleaves]
  exact ⟨Comparable.oneOrder, fun horder => ⟨hcomplete, horder⟩⟩

lemma comparable_deleteLeaves_iff {stmt : DeleteStmt} {schema : TableSchema}
    {rows : List (Row D)} {colName : String} (hcol : colName ∈ schema.columnIndex)
    (h : Comparable schema rows) :
    Comparable schema (deleteLeaves stmt rows) ↔ ∀ pre row post,
      ThrowsAt (removeTurn stmt.whereClause) ([], []) rows pre row post →
        pre.Pairwise fun r r' =>
          selects stmt.whereClause r = .ok true → selects stmt.whereClause r' = .ok true := by
  constructor
  · intro hleaves pre row post ht
    refine (deleteLeaves_eq_iff ht).mp ((deleteLeaves_of_throws ht).resolve_right fun hempty => ?_)
    have hmem := hleaves.complete ∅ hempty colName hcol
    simp at hmem
  · intro hunseen
    rcases deleteLeaves_cases stmt rows with hsub | ⟨pre, row, post, ht⟩
    · exact h.subset hsub
    · rwa [(deleteLeaves_eq_iff ht).mpr (hunseen pre row post ht)]

/-- **One statement** keeps the rows comparable exactly when it meets the condition. -/
theorem comparable_step_iff {db : Database D} (hschemas : FromColumns db)
    (h : OfTables Comparable db) (stmt : Statement) :
    OfTables Comparable (step db stmt) ↔ StoresComparable db stmt := by
  cases stmt with
  | createTable stmt =>
    have hnil (schema : TableSchema) : Comparable (D := D) schema [] :=
      ⟨by simp, fun colName _ u _ _ ⟨row, hrow, _⟩ => by simp at hrow⟩
    exact iff_of_true (ofTables_createTable hnil h stmt) trivial
  | insert stmt =>
    refine (ofTables_iff_onTable (f := insertLeaves stmt) h execute_insert_of_none
      fun table hname htable => congrArg Prod.snd (execute_insert hname htable)).trans ?_
    exact Database.onTable_congr fun table htable =>
      comparable_insertLeaves_iff (hschemas _ _ htable).2 (h _ _ htable)
  | update stmt =>
    refine (ofTables_iff_onTable (f := updateLeaves stmt) h execute_update_of_none
      fun table hname htable => congrArg Prod.snd (execute_update hname htable)).trans ?_
    exact Database.onTable_congr fun table htable => comparable_updateLeaves_iff (h _ _ htable)
  | delete stmt =>
    refine (ofTables_iff_onTable (f := fun _ => deleteLeaves stmt) h execute_delete_of_none
      fun table hname htable => congrArg Prod.snd (execute_delete hname htable)).trans ?_
    refine Database.onTable_congr fun table htable => ?_
    obtain ⟨hcolumns, hschema⟩ := hschemas _ _ htable
    obtain ⟨col, hcol⟩ := List.exists_mem_of_ne_nil _ hcolumns
    have hmem : col.name ∈ table.schema.columnIndex := by
      rw [hschema]
      exact mem_columnIndex_ofColumns.mpr ⟨col, hcol, rfl⟩
    exact comparable_deleteLeaves_iff hmem (h _ _ htable)
  | select stmt =>
    rw [step, execute_select]
    exact iff_of_true h trivial
  | other => exact iff_of_true h trivial

/-! ### Runs -/

/-- **When `ORDER BY` compares by a strict weak order after every statement of a run**: exactly
when, for every column, no `INSERT` and no `UPDATE` of the run leaves two values in order beside
a third one of another type, and every `DELETE` of the run that throws leaves the rows as they
were. -/
theorem always_sortable_iff (D : Type) [Doubles D] [LawfulDoubles D] (stmts : List Statement) :
    Always step (OfTables Sortable) ({} : Database D) stmts ↔
      Along step StoresComparable ({} : Database D) stmts := by
  have hempty : OfTables Comparable ({} : Database D) := fun name table htable => by simp at htable
  have hstep (db : Database D) (stmt : Statement) (h : FromColumns db ∧ OfTables Comparable db) :
      FromColumns (step db stmt) ∧ OfTables Comparable (step db stmt) ↔
        StoresComparable db stmt := by
    rw [comparable_step_iff h.1 h.2, and_iff_right (h.1.step stmt)]
  have hschemas : FromColumns ({} : Database D) := fromColumns_run []
  rw [← always_iff_along (P := fun db => FromColumns db ∧ OfTables Comparable db) hstep
    ⟨hschemas, hempty⟩]
  have hsame (db : Database D) (h : FromColumns db) :
      OfTables Sortable db ↔ FromColumns db ∧ OfTables Comparable db := by
    rw [and_iff_right h]
    exact forall_congr' fun name => forall_congr' fun table =>
      imp_congr_right fun _ => sortable_iff
  exact forall_congr' fun pre => forall_congr' fun post => imp_congr_right fun _ =>
    hsame _ (fromColumns_run pre)

theorem always_sortable_newTable : Always step (OfTables Sortable) ({} : Database ℚ)
    [.createTable ⟨"t", [{ name := "a", type := .INT }]⟩] :=
  (always_sortable_iff ℚ _).mpr ⟨trivial, trivial⟩

/-- A default that is stored as a number beside texts that are in order. -/
theorem not_always_sortable : ¬ Always step (OfTables Sortable) ({} : Database ℚ)
    [.createTable ⟨"t", [{ name := "a", type := .INT, defaultValue := "5" },
        { name := "b", type := .TEXT }]⟩,
      .insert { tableName := "t", columns := ["b"], values := [[.literal "x" .STRING]] },
      .insert {
        tableName := "t"
        columns := ["a", "b"]
        values := [[.literal "1" .NUMBER, .literal "y" .STRING],
          [.literal "3" .NUMBER, .literal "z" .STRING]] }] := by
  intro h
  have hsortable := h _ [] (List.append_nil _).symm "t"
  revert hsortable
  generalize hdb : run step ({} : Database ℚ) _ = db
  have hvalues : (db.tables["t"]?.any fun table => "a" ∈ table.schema.columnIndex &&
      [.string "1", .string "3", .int 5].all fun (v : Value ℚ) =>
        table.rows.any fun row => row["a"]? = some v) = true := by
    rw [← hdb]
    decide
  intro hsortable
  obtain ⟨table, htable, hvalues⟩ := (Option.any_eq_true _ _).mp hvalues
  obtain ⟨hcol, hvalues⟩ := Bool.and_eq_true_iff.mp hvalues
  have hstored (v : Value ℚ) (hv : v ∈ [.string "1", .string "3", .int 5]) :
      InColumn "a" (· ∈ table.rows) v := by
    obtain ⟨row, hrow, hvalue⟩ := List.any_eq_true.mp (List.all_eq_true.mp hvalues v hv)
    exact ⟨row, hrow, of_decide_eq_true hvalue⟩
  have horder := (sortable_iff.mp (hsortable table htable)).oneOrder "a" (of_decide_eq_true hcol)
  have hlt : Precedes (.string "1" : Value ℚ) (.string "3") := by
    change "1" < "3"
    decide
  rcases horder _ _ (.int 5) (hstored _ (by simp)) (hstored _ (by simp)) (hstored _ (by simp)) hlt
    with hnull | hin
  · cases hnull
  · exact hin

end Dbx4.SqlOrder
