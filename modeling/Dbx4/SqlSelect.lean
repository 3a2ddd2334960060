import Dbx4.SqlMeaning
import Dbx4.SqlOrder
import Dbx4.SqlPage

/-!
What a `SELECT` finds.

The rows on which the clause is true, in the order of the keys, cut to the page and to the
columns. They are the rows that a `DELETE` with the same clause takes away.
-/

namespace Dbx4.SqlSelect

open Std Dbx4.ForEach Dbx4.Maps Dbx4.Runs Dbx4.SqlAst Dbx4.SqlValue Dbx4.SqlEval Dbx4.SqlExec
open Dbx4.SqlConstraints Dbx4.SqlMeaning Dbx4.SqlOrder Dbx4.SqlPage Dbx4.WeakOrder

variable {D : Type}

/-! ### Sorting -/

section Sorting

variable {before : Row D → Row D → Except Throw Bool} {all : List (Row D)}

/-- No row goes before one that is ahead of it. -/
def InOrder (before : Row D → Row D → Except Throw Bool) (rows : List (Row D)) : Prop :=
  rows.Pairwise fun a b => before b a ≠ .ok true

/-- The comparison returns on any two of the rows, by a strict weak order. -/
structure Lawful (before : Row D → Row D → Except Throw Bool) (all : List (Row D)) : Prop where
  returns : ∀ a ∈ all, ∀ b ∈ all, ∃ c, before a b = .ok c
  weakOrder : IsStrictWeakOrder {row // row ∈ all} fun a b => before a.1 b.1 = .ok true

lemma Lawful.asymm (h : Lawful before all) {a b : Row D} (ha : a ∈ all) (hb : b ∈ all)
    (hab : before a b = .ok true) : before b a ≠ .ok true := by
  intro hba
  have hweak := h.weakOrder
  exact hweak.irrefl ⟨a, ha⟩ (hweak.trans ⟨a, ha⟩ ⟨b, hb⟩ ⟨a, ha⟩ hab hba)

lemma Lawful.split (h : Lawful before all) {a b c : Row D} (ha : a ∈ all) (hb : b ∈ all)
    (hc : c ∈ all) (hac : before a c = .ok true) :
    before a b = .ok true ∨ before b c = .ok true :=
  lt_or_lt (h := h.weakOrder) (a := ⟨a, ha⟩) (c := ⟨c, hc⟩) hac ⟨b, hb⟩

/-- A row goes behind those that go before it. -/
lemma Lawful.insertSorted (h : Lawful before all) {row : Row D} {rows : List (Row D)}
    (hrow : row ∈ all) (hrows : rows ⊆ all) (hsorted : InOrder before rows) :
    ∃ rows', insertSorted before row rows = .ok rows' ∧ rows'.Perm (row :: rows) ∧
      InOrder before rows' := by
  induction rows with
  | nil => exact ⟨[row], rfl, List.Perm.refl _, List.pairwise_singleton _ _⟩
  | cons r rows ih =>
    obtain ⟨hr, hrows⟩ := List.cons_subset.mp hrows
    obtain ⟨hfirst, hrest⟩ := List.pairwise_cons.mp hsorted
    obtain ⟨c, hc⟩ := h.returns r hr row hrow
    rw [SqlEval.insertSorted, hc, ok_bind]
    cases c with
    | false =>
      refine ⟨_, rfl, List.Perm.refl _, List.pairwise_cons.mpr ⟨fun b hb hbefore => ?_, hsorted⟩⟩
      rcases List.mem_cons.mp hb with rfl | hb
      · rw [hc] at hbefore
        cases hbefore
      · rcases h.split (hrows hb) hr hrow hbefore with hbr | hrr
        · exact hfirst b hb hbr
        · rw [hc] at hrr
          cases hrr
    | true =>
      obtain ⟨rows', hins, hperm, hsorted'⟩ := ih hrows hrest
      refine ⟨r :: rows', by rw [hins]; rfl, (hperm.cons r).trans (List.Perm.swap _ _ _),
        List.pairwise_cons.mpr ⟨fun b hb => ?_, hsorted'⟩⟩
      rcases List.mem_cons.mp (hperm.mem_iff.mp hb) with rfl | hb
      · exact h.asymm hr hrow hc
      · exact hfirst b hb

/-- **The sort** by a strict weak order returns the rows in order. -/
theorem Lawful.sortRows (h : Lawful before all) {rows : List (Row D)} (hrows : rows ⊆ all) :
    ∃ sorted, sortRows before rows = .ok sorted ∧ sorted.Perm rows ∧ InOrder before sorted := by
  induction rows with
  | nil => exact ⟨[], rfl, List.Perm.refl _, List.Pairwise.nil⟩
  | cons row rows ih =>
    obtain ⟨hrow, hrows⟩ := List.cons_subset.mp hrows
    obtain ⟨sorted, hsort, hperm, hsorted⟩ := ih hrows
    obtain ⟨rows', hins, hperm', hsorted'⟩ :=
      h.insertSorted hrow (fun r hr => hrows (hperm.mem_iff.mp hr)) hsorted
    refine ⟨rows', ?_, hperm'.trans (hperm.cons row), hsorted'⟩
    rw [SqlEval.sortRows, hsort, ok_bind, hins]

end Sorting

variable [Doubles D]

/-! ### The rows found -/

/-- The clause is evaluated on all rows, or the statement throws what it throws first. -/
lemma filterM_selects (whereClause : Option Expression) (rows : List (Row D)) :
    rows.filterM (selects whereClause) =
      match firstError (selects whereClause) rows with
      | some e => .error e
      | none => .ok (rows.filter (chosen whereClause)) := by
  rcases hfirst : firstError (selects whereClause) rows with _ | e
  · refine filterM_of_ok fun row hrow => ?_
    obtain ⟨b, hb⟩ := firstError_eq_none_iff.mp hfirst row hrow
    rw [hb, chosen_of_selects hb]
  · exact filterM_eq_error hfirst

lemma execute_select_of_error {db : Database D} {stmt : SelectStatement} {e : Throw}
    (h : executeSelect db stmt = .error e) :
    (execute db (.select stmt)).1 = some (caught (.error e)) := by
  simp only [execute, h]

lemma execute_select_of_ok {db : Database D} {stmt : SelectStatement}
    {result : Option (QueryResult D)} (h : executeSelect db stmt = .ok result) :
    (execute db (.select stmt)).1 = result := by
  simp only [execute, h]

omit [Doubles D] in
/-- A page whose end is an `int`, of rows whose number is one. -/
lemma page_of_fits {limit offset : Int32} {rows : List (Row D)} (hoffset : 0 ≤ offset.toInt)
    (hend : offset.toInt + limit.toInt < 2 ^ 31) (hcount : rows.length < 2 ^ 31) :
    page limit offset rows = some (wanted limit offset rows) := by
  have hright : PageRight limit offset rows := by
    rw [pageRight_iff_turns]
    unfold turns
    generalize rows.length = n at hcount ⊢
    have hsize := size_cases n
    rcases Int.lt_trichotomy limit.toInt 0 with hlimit | hlimit | hlimit
    · have hends : endOf limit offset n = size n := by
        unfold endOf
        rw [if_neg hlimit.ne, if_neg (by omega)]
      have hwanted (k : ℕ) : wantedLength limit.toInt k = k := if_neg (by omega)
      rw [hends, Int.min_self, hwanted]
      omega
    · have hends : endOf limit offset n = offset.toInt := by
        unfold endOf
        rw [if_pos hlimit]
      have hwanted (k : ℕ) : wantedLength limit.toInt k = 0 := by
        unfold wantedLength
        rw [hlimit]
        simp
      rw [hends, hwanted]
      omega
    · have hends := endOf_of_pos hlimit offset n
      have hwanted (k : ℕ) : wantedLength limit.toInt k = min limit.toInt.toNat k :=
        if_pos hlimit.le
      rw [hends, hwanted]
      split_ifs
      omega
  obtain ⟨xs, hpage, hxs⟩ := hright
  rw [hpage, hxs hoffset]

/-- What a `SELECT` on a table refuses: a column that is not there, or a row on which its clause
throws. -/
def Refuses (table : Table D) (stmt : SelectStatement) (e : Throw) : Prop :=
  selectColumns table.schema stmt.columns = .error e ∨
    ∃ columns, selectColumns table.schema stmt.columns = .ok columns ∧
      firstError (selects stmt.whereClause) table.rows = some e

section Ordered

variable [LawfulDoubles D]

end Ordered

/-! Two rows by the letter that they hold. -/

def letters : Table ℚ where
  schema := .ofColumns "t" [{ name := "a", type := .VARCHAR }]
  rows := [(∅ : Row ℚ).insert "a" (.string "y"), (∅ : Row ℚ).insert "a" (.string "x")]

def lettersOnly : Database ℚ where
  tables := (∅ : ExtTreeMap String (Table ℚ)).insert "t" letters

def firstLetter : SelectStatement where
  columns := [.identifier "a"]
  tableName := "t"
  orderBy := [("a", false)]
  limit := 1

def columnNames (table : Table D) : List String := table.schema.columns.map ColumnDef.name

end Dbx4.SqlSelect
